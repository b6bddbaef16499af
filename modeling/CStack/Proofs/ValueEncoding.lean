import CStack.Proofs.WordArithmetic

/-!
# Values are their bit patterns, and conversions extend and cut them

A value is stored as its kind together with the low `width` bits of a 64-bit word. Reading the
pattern back (`ofBits` after `toBits`) gives the value again, and storing a word keeps exactly its
low `width` bits, so a value is determined by its kind and its pattern: the machine's identity
of values, by kind and bits, is equality.

Conversions between integer and address kinds are two's-complement ones. The value converted to
a kind is the value of that kind whose pattern is the low bits of the source's pattern extended
to 64 bits, by its sign for a signed source and by zeros otherwise (`extendedBits`). All of this is
one fact about the integer a value stands for: converting keeps that integer modulo the target's
width (`convert_eq_ofInt`). Narrowing in two steps is then narrowing in one, and a value survives
a round trip through a kind at least as wide as its own. The main statement is
`Value.bitEncoding_laws`.
-/

namespace CStack

namespace Value

variable {v : Value} {k : Kind}

/-! ### Patterns -/

theorem ofBits_kind_toBits (v : Value) : ofBits v.kind v.toBits = v := by
  cases v <;> simp [ofBits, kind, toBits]

theorem toBits_ofBits (k : Kind) (b : UInt64) :
    (ofBits k b).toBits.toNat = b.toNat % 2 ^ k.width := by
  cases k <;> simp [ofBits, toBits, Kind.width]

theorem eq_iff_kind_toBits {v w : Value} : v = w ↔ v.kind = w.kind ∧ v.toBits = w.toBits := by
  constructor
  · rintro rfl
    exact ⟨rfl, rfl⟩
  · rintro ⟨hkind, hbits⟩
    rw [← ofBits_kind_toBits v, ← ofBits_kind_toBits w, hkind, hbits]

/-! ### Values named by integers -/

theorem ofInt_toInt (hv : v.kind.isFloat = false) : ofInt v.kind v.toInt = v := by
  rw [← ofBits_of_modEq (toInt_modEq_toBits hv).symm, ofBits_kind_toBits]

theorem kind_ofInt (k : Kind) (n : Int) : (ofInt k n).kind = k := kind_ofBits k _

theorem uint64_ofInt_modEq (n : Int) : ((UInt64.ofInt n).toNat : Int) ≡ n [ZMOD 2 ^ 64] := by
  rw [Word.uint64_ofInt_toNat]
  exact Int.mod_modEq n _

theorem ofInt_congr {n n' : Int} (h : n ≡ n' [ZMOD 2 ^ k.width]) : ofInt k n = ofInt k n' :=
  ofBits_of_modEq ((k.modEq_width (uint64_ofInt_modEq n)).trans h)

theorem toInt_ofInt_modEq (hk : k.isFloat = false) (n : Int) :
    (ofInt k n).toInt ≡ n [ZMOD 2 ^ k.width] := by
  have hbits := toInt_modEq_toBits (v := ofInt k n) (by rw [kind_ofInt]; exact hk)
  rw [kind_ofInt] at hbits
  refine hbits.trans ?_
  rw [ofInt, toBits_ofBits, Int.natCast_emod, Nat.cast_pow, Nat.cast_ofNat]
  exact (Int.mod_modEq _ _).trans (k.modEq_width (uint64_ofInt_modEq n))

/-! ### Conversions between integer and address kinds -/

/-- Converting an integer or address value to an integer or address kind keeps its integer
modulo the target's width. -/
theorem convert_eq_ofInt (hv : v.kind.isFloat = false) (hk : k.isFloat = false) :
    v.convert k = ofInt k v.toInt := by
  unfold convert
  split_ifs with hsame
  · subst hsame
    exact (ofInt_toInt hv).symm
  · -- an integer target reads the value signed at 64 bits, an address target unsigned
    have hsigned : (v.toInt64.toUInt64.toNat : Int) ≡ v.toInt [ZMOD 2 ^ 64] :=
      (Word.int64_toUInt64_modEq _).trans (toInt64_modEq hv)
    cases k with
    | float32 | float64 => cases hk
    | pointer =>
      show ofBits .pointer v.toUInt64 = _
      exact ofBits_of_modEq (Kind.modEq_width _ (toUInt64_modEq hv))
    | int8 | uint8 | int16 | uint16 | int32 | uint32 | int64 | uint64 =>
      exact ofBits_of_modEq (Kind.modEq_width _ hsigned)

/-- The value's pattern extended to 64 bits: by copies of its sign bit for a signed kind, by
zeros otherwise. -/
def extendedBits (v : Value) : UInt64 :=
  let pattern := v.toBits.toBitVec.setWidth v.kind.width
  if v.kind.isSigned then ⟨pattern.signExtend 64⟩ else v.toBits

theorem signExtend_toNat_modEq {w : Nat} (b : BitVec w) :
    ((b.signExtend 64).toNat : Int) ≡ b.toInt [ZMOD 2 ^ 64] := by
  rw [BitVec.signExtend, BitVec.toNat_ofInt, Int.toNat_of_nonneg (by omega)]
  exact Int.mod_modEq _ _

theorem signedPattern_toInt (hv : v.kind.isFloat = false) (hs : v.kind.isSigned = true) :
    (v.toBits.toBitVec.setWidth v.kind.width).toInt = v.toInt := by
  cases v with
  | int8 x | int16 x | int32 x | int64 x => simp [toBits, kind, Kind.width, toInt]
  | float32 _ | float64 _ => cases hv
  | uint8 _ | uint16 _ | uint32 _ | uint64 _ | pointer _ => cases hs

theorem extendedBits_modEq (hv : v.kind.isFloat = false) :
    (v.extendedBits.toNat : Int) ≡ v.toInt [ZMOD 2 ^ 64] := by
  cases hs : v.kind.isSigned
  · -- zeros extend an unsigned pattern, which is the integer itself
    cases v <;> first | rfl | cases hs
  · have hext : v.extendedBits.toNat =
        ((v.toBits.toBitVec.setWidth v.kind.width).signExtend 64).toNat := by
      simp [extendedBits, hs]
    rw [hext, ← signedPattern_toInt hv hs]
    exact signExtend_toNat_modEq _

theorem convert_eq_ofBits_extendedBits (hv : v.kind.isFloat = false) (hk : k.isFloat = false) :
    v.convert k = ofBits k v.extendedBits := by
  rw [convert_eq_ofInt hv hk, ofBits_of_modEq (k.modEq_width (extendedBits_modEq hv))]

theorem convert_convert_of_width_le {k₁ k₂ : Kind} (hv : v.kind.isFloat = false)
    (h₁ : k₁.isFloat = false) (h₂ : k₂.isFloat = false) (hw : k₂.width ≤ k₁.width) :
    (v.convert k₁).convert k₂ = v.convert k₂ := by
  rw [convert_eq_ofInt hv h₁, convert_eq_ofInt (by rw [kind_ofInt]; exact h₁) h₂,
    convert_eq_ofInt hv h₂]
  exact ofInt_congr (Int.ModEq.of_dvd (pow_dvd_pow 2 hw) (toInt_ofInt_modEq h₁ v.toInt))

theorem convert_convert_kind (hv : v.kind.isFloat = false) (hk : k.isFloat = false)
    (hw : v.kind.width ≤ k.width) : (v.convert k).convert v.kind = v := by
  rw [convert_eq_ofInt hv hk, convert_eq_ofInt (by rw [kind_ofInt]; exact hk) hv]
  rw [ofInt_congr (Int.ModEq.of_dvd (pow_dvd_pow 2 hw) (toInt_ofInt_modEq hk v.toInt))]
  exact ofInt_toInt hv

/-- The laws of the value encoding. Reading a value's pattern back gives the value; storing a word
keeps its low `width` bits (a float's IEEE bits included); so a value is its kind and its
pattern. A conversion from an integer or address value to an integer or address kind is that
kind read from the value's pattern extended to 64 bits by its sign (signed kinds) or by zeros.
Hence converting to a kind and then to one no wider is one conversion, and a value converted
to a kind at least as wide and back is unchanged. -/
theorem bitEncoding_laws :
    (∀ v : Value, ofBits v.kind v.toBits = v) ∧
    (∀ (k : Kind) (b : UInt64), (ofBits k b).toBits.toNat = b.toNat % 2 ^ k.width) ∧
    (∀ v w : Value, v = w ↔ v.kind = w.kind ∧ v.toBits = w.toBits) ∧
    (∀ (v : Value) (k : Kind), v.kind.isFloat = false → k.isFloat = false →
      v.convert k = ofBits k v.extendedBits) ∧
    (∀ (v : Value) (k₁ k₂ : Kind), v.kind.isFloat = false → k₁.isFloat = false →
      k₂.isFloat = false → k₂.width ≤ k₁.width → (v.convert k₁).convert k₂ = v.convert k₂) ∧
    (∀ (v : Value) (k : Kind), v.kind.isFloat = false → k.isFloat = false →
      v.kind.width ≤ k.width → (v.convert k).convert v.kind = v) :=
  ⟨ofBits_kind_toBits, toBits_ofBits, fun _ _ => eq_iff_kind_toBits,
    fun _ _ hv hk => convert_eq_ofBits_extendedBits hv hk,
    fun _ _ _ hv h₁ h₂ hw => convert_convert_of_width_le hv h₁ h₂ hw,
    fun _ _ hv hk hw => convert_convert_kind hv hk hw⟩

/-- A 16-bit value widened to 64 bits and narrowed back is itself, and its widening is the sign
extension of its pattern. -/
theorem bitEncoding_laws_int16_widening :
    ((Value.int16 (-300)).convert .int64).convert .int16 = .int16 (-300) ∧
    (Value.int16 (-300)).convert .int64 = ofBits .int64 (Value.int16 (-300)).extendedBits :=
  ⟨bitEncoding_laws.2.2.2.2.2 (.int16 (-300)) .int64 rfl rfl (by decide),
    bitEncoding_laws.2.2.2.1 (.int16 (-300)) .int64 rfl rfl⟩

end Value

end CStack
