import CStack.Proofs.DefaultArguments
import CStack.Proofs.StaticTyping
import CStack.Proofs.ValueEncoding

/-!
# The type and the constant of an integer literal

An integer literal is typed by `integerLiteralType`: `int` when the machine's `int` holds its
value, else `long` when `long` does, else `long long`; its code is one `loadConstant` of the
value converted to that type's kind. On a valid machine (`Machine.Valid`) the three widths are
1, 2, 4 or 8 bytes and do not shrink from `int` to `long long`, so the test `fitsSigned` is the
signed range of the width (`InSignedRange`), and a range that holds a value at one width holds
it at every wider one.

The last choice is made without a test: a value that neither `int` nor `long` holds is typed
`long long` whatever that type's width, and its constant is the value reduced to that width.
The constant keeps the literal's value exactly when `long long` holds it, as an 8-byte
`long long` always does; no diagnostic is filed either way.
-/

namespace CStack

/-- `n` is a two's-complement integer of `size` bytes. -/
def InSignedRange (size : Nat) (n : Int) : Prop :=
  -2 ^ (size * 8 - 1) ≤ n ∧ n < 2 ^ (size * 8 - 1)

instance (size : Nat) (n : Int) : Decidable (InSignedRange size n) :=
  inferInstanceAs (Decidable (_ ∧ _))

namespace InSignedRange

theorem mono {a b : Nat} {n : Int} (h : InSignedRange a n) (hab : a ≤ b) :
    InSignedRange b n := by
  have hpow : (2 : Int) ^ (a * 8 - 1) ≤ 2 ^ (b * 8 - 1) := by
    exact_mod_cast Nat.pow_le_pow_right (by decide) (by omega)
  unfold InSignedRange at *
  omega

theorem int64 (v : Int64) {size : Nat} (h : 8 ≤ size) : InSignedRange size v.toInt :=
  mono ⟨v.le_toInt, v.toInt_lt⟩ h

end InSignedRange

theorem fitsSigned_iff (v : Int64) {size : Nat} (hsize : 0 < size) :
    fitsSigned v size = true ↔ InSignedRange size v.toInt := by
  unfold fitsSigned
  dsimp only
  split
  · -- 64 bits or more hold every value untested
    simpa using InSignedRange.int64 v (by omega)
  · split
    · omega
    · simp [InSignedRange]

namespace Machine

variable {m : Machine}

theorem Valid.integerWidth (h : m.Valid) : ∀ p ∈ m.integerWidths, p.2 ∈ [1, 2, 4, 8] := by
  unfold Valid validate at h
  split at h
  · cases h
  · rename_i hnone
    intro p hp
    have hmem := List.find?_eq_none.mp hnone p hp
    simp only [List.mem_cons, List.mem_nil_iff, or_false, decide_eq_true_eq, not_not] at hmem ⊢
    exact hmem

theorem Valid.ordered (h : m.Valid) :
    m.charSize ≤ m.shortSize ∧ m.shortSize ≤ m.intSize ∧ m.intSize ≤ m.longSize ∧
      m.longSize ≤ m.longLongSize := by
  unfold Valid validate at h
  split at h
  · cases h
  · split at h
    · cases h
    · split at h
      · cases h
      · rename_i hnone
        simp only [integerWidths, List.take, firstInversion] at hnone
        split_ifs at hnone
        omega

theorem Valid.literalWidth (h : m.Valid) {n : BasicName} (hn : n ∈ [.int, .long, .longLong]) :
    m.sizeOf n ∈ [1, 2, 4, 8] := by
  have hwidth := h.integerWidth
  simp only [integerWidths, List.mem_cons, List.mem_nil_iff, or_false, forall_eq_or_imp,
    forall_eq] at hwidth
  rcases List.mem_cons.mp hn with rfl | hn
  · simpa [sizeOf] using hwidth.2.2.1
  rcases List.mem_cons.mp hn with rfl | hn
  · simpa [sizeOf] using hwidth.2.2.2.1
  rcases List.mem_singleton.mp hn with rfl
  simpa [sizeOf] using hwidth.2.2.2.2.1

end Machine

/-- The name of the type of an integer literal on a machine: the first of `int` and `long`
whose signed range holds it, else `long long`. -/
def literalName (m : Machine) (v : Int64) : BasicName :=
  if InSignedRange m.intSize v.toInt then .int
  else if InSignedRange m.longSize v.toInt then .long
  else .longLong

theorem literalName_mem (m : Machine) (v : Int64) :
    literalName m v ∈ [.int, .long, .longLong] := by
  unfold literalName
  split_ifs <;> simp

/-- The constant an integer literal is emitted as: the value converted to its type. -/
def literalConstant (m : Machine) (v : Int64) : Value :=
  (Value.int64 v).convertTo (integerLiteralType v m)

namespace Value

theorem toInt_signed_bounds {v : Value} (hv : v.kind.isFloat = false)
    (hs : v.kind.isSigned = true) :
    -2 ^ (v.kind.width - 1) ≤ v.toInt ∧ v.toInt < 2 ^ (v.kind.width - 1) := by
  cases v with
  | int8 x => exact ⟨x.le_toInt, x.toInt_lt⟩
  | int16 x => exact ⟨x.le_toInt, x.toInt_lt⟩
  | int32 x => exact ⟨x.le_toInt, x.toInt_lt⟩
  | int64 x => exact ⟨x.le_toInt, x.toInt_lt⟩
  | float32 _ | float64 _ => cases hv
  | uint8 _ | uint16 _ | uint32 _ | uint64 _ | pointer _ => cases hs

theorem toInt_ofInt_eq_iff {k : Kind} {size : Nat} (hk : k.isFloat = false)
    (hs : k.isSigned = true) (hw : k.width = size * 8) (n : Int) :
    (ofInt k n).toInt = n ↔ InSignedRange size n := by
  have hbounds := toInt_signed_bounds (v := ofInt k n) (by rw [kind_ofInt]; exact hk)
    (by rw [kind_ofInt]; exact hs)
  rw [kind_ofInt, hw] at hbounds
  constructor
  · intro hkeep
    rw [hkeep] at hbounds
    exact hbounds
  · -- two integers of one signed range that agree modulo its width are equal
    intro hn
    have hmod := toInt_ofInt_modEq hk n
    rw [hw] at hmod
    have hpos : 0 < size * 8 := hw ▸ k.width_pos
    have hsplit : (2 : Int) ^ (size * 8) = 2 * 2 ^ (size * 8 - 1) := by
      rw [← pow_succ']
      congr 1
      omega
    have hdvd : 2 ^ (size * 8) ∣ (ofInt k n).toInt - n := Int.ModEq.dvd hmod.symm
    have habs : |(ofInt k n).toInt - n| < 2 ^ (size * 8) := by
      unfold InSignedRange at hn
      rw [abs_lt, hsplit]
      omega
    exact Int.sub_eq_zero.mp (Int.eq_zero_of_abs_lt_dvd hdvd habs)

end Value

namespace Kind

theorem integer?_signed {size : Nat} (h : size ∈ [1, 2, 4, 8]) :
    ∃ k, integer? size true = some k ∧ k.width = size * 8 ∧ k.isSigned = true ∧
      k.isFloat = false := by
  simp only [List.mem_cons, List.mem_nil_iff, or_false] at h
  rcases h with rfl | rfl | rfl | rfl <;> exact ⟨_, rfl, rfl, rfl, rfl⟩

end Kind

section Valid

variable {m : Machine} (hm : m.Valid) (v : Int64)
include hm

theorem integerLiteralType_eq :
    integerLiteralType v m = .basic (BasicType.make (literalName m v) .signed m) := by
  have hint := hm.literalWidth (n := .int) (by simp)
  have hlong := hm.literalWidth (n := .long) (by simp)
  simp only [List.mem_cons, List.mem_nil_iff, or_false, Machine.sizeOf] at hint hlong
  have hfitsInt := fitsSigned_iff v (show 0 < m.intSize by omega)
  have hfitsLong := fitsSigned_iff v (show 0 < m.longSize by omega)
  unfold integerLiteralType literalName
  rw [List.find?_cons, List.find?_cons, List.find?_nil]
  simp only [Machine.sizeOf]
  cases hi : fitsSigned v m.intSize <;> cases hl : fitsSigned v m.longSize <;>
    simp_all

theorem literalKind_spec :
    let k := (BasicType.make (literalName m v) .signed m).valueKind
    k.width = m.sizeOf (literalName m v) * 8 ∧ k.isSigned = true ∧ k.isFloat = false := by
  intro k
  obtain ⟨k', hk', hw, hs, hf⟩ := Kind.integer?_signed (hm.literalWidth (literalName_mem m v))
  have hname := literalName_mem m v
  have hk : k = k' := by
    simp only [List.mem_cons, List.mem_nil_iff, or_false] at hname
    rcases hname with hname | hname | hname <;>
      simp [k, BasicType.valueKind, BasicType.make, BasicType.kind, BasicType.isSigned, hname,
        BasicName.isFloat] <;> simp_all
  rw [hk]
  exact ⟨hw, hs, hf⟩

theorem literalConstant_eq :
    literalConstant m v = Value.ofInt (BasicType.make (literalName m v) .signed m).valueKind v.toInt := by
  rw [literalConstant, integerLiteralType_eq hm, Value.convertTo, CType.valueKind?]
  exact Value.convert_eq_ofInt rfl (literalKind_spec hm v).2.2

theorem literalConstant_toInt_eq_iff_name :
    (literalConstant m v).toInt = v.toInt ↔ InSignedRange (m.sizeOf (literalName m v)) v.toInt := by
  obtain ⟨hw, hs, hf⟩ := literalKind_spec hm v
  rw [literalConstant_eq hm]
  exact Value.toInt_ofInt_eq_iff hf hs hw v.toInt

theorem literalConstant_toInt_eq_iff :
    (literalConstant m v).toInt = v.toInt ↔ InSignedRange m.longLongSize v.toInt := by
  obtain ⟨-, -, hint, hlong⟩ := hm.ordered
  rw [literalConstant_toInt_eq_iff_name hm]
  unfold literalName
  split_ifs with hfitsInt hfitsLong
  · exact iff_of_true hfitsInt (hfitsInt.mono (by omega))
  · exact iff_of_true hfitsLong (hfitsLong.mono hlong)
  · rfl

end Valid

namespace EmitM

variable (env : EmitEnv) (st : EmitState) {tag : Nat} {span : Span} {v : Int64}

theorem typeOf_integer_run (h : st.memo.Agrees env st.function.scope (.node tag span (.integer v))) :
    ∃ memo, ((typeOf (.node tag span (.integer v))).run env).run st =
      (integerLiteralType v env.machine, { st with memo }) := by
  unfold typeOf
  simp only [run_bind, get_run, Id.pure_fst, Id.pure_snd]
  split
  · -- a hit holds the static type, which is the literal's
    rename_i t hhit
    have hstatic := h.types _ (Expr.mem_nodes_self _) t hhit
    simp only [EmitEnv.staticType, Option.some.injEq] at hstatic
    subst hstatic
    exact ⟨st.memo, rfl⟩
  · exact ⟨_, by simp [typeOfNode]; rfl⟩

theorem emitExpr_integer_run
    (h : st.memo.Agrees env st.function.scope (.node tag span (.integer v))) :
    ∃ memo, ((emitExpr (.node tag span (.integer v))).run env).run st =
      ((), { st with memo }.appending [.loadConstant (literalConstant env.machine v)]) := by
  obtain ⟨memo, htype⟩ := typeOf_integer_run env st h
  refine ⟨memo, ?_⟩
  simp only [emitExpr, emitLiteral, run_bind, htype]
  exact push_run_appending env _ _

end EmitM

/-- On a valid machine an integer literal is typed `int`, `long` or `long long`: the first of
`int` and `long` whose signed range holds it, else `long long` untested. It is emitted as one
constant of that type's signed kind and nothing is filed; the constant is congruent to the
literal modulo the type's width, and equal to it exactly when `long long` holds it, as it always
does where `long long` has 8 bytes. -/
theorem integerLiteral_typeAndConstant (m : Machine) (hm : m.Valid) (v : Int64) :
    integerLiteralType v m = .basic (BasicType.make (literalName m v) .signed m) ∧
    (literalConstant m v).kind = (BasicType.make (literalName m v) .signed m).valueKind ∧
    (literalConstant m v).kind.isSigned = true ∧
    (literalConstant m v).kind.width = m.sizeOf (literalName m v) * 8 ∧
    (literalConstant m v).toInt ≡ v.toInt [ZMOD 2 ^ (m.sizeOf (literalName m v) * 8)] ∧
    ((literalConstant m v).toInt = v.toInt ↔ InSignedRange m.longLongSize v.toInt) ∧
    (m.longLongSize = 8 → (literalConstant m v).toInt = v.toInt) ∧
    ∀ (env : EmitEnv) (st : EmitState) (tag : Nat) (span : Span), env.machine = m →
      st.memo.Agrees env st.function.scope (.node tag span (.integer v)) →
      ∃ memo, ((EmitM.emitExpr (.node tag span (.integer v))).run env).run st =
        ((), { st with memo }.appending [.loadConstant (literalConstant m v)]) := by
  obtain ⟨hw, hs, hf⟩ := literalKind_spec hm v
  have hkind : (literalConstant m v).kind = (BasicType.make (literalName m v) .signed m).valueKind := by
    rw [literalConstant_eq hm, Value.kind_ofInt]
  have hmod := Value.toInt_ofInt_modEq hf v.toInt
  rw [hw, ← literalConstant_eq hm] at hmod
  refine ⟨integerLiteralType_eq hm v, hkind, hkind ▸ hs, hkind ▸ hw, hmod,
    literalConstant_toInt_eq_iff hm v, fun h8 => ?_, ?_⟩
  · exact (literalConstant_toInt_eq_iff hm v).mpr (InSignedRange.int64 v h8.ge)
  · rintro env st tag span rfl h
    exact EmitM.emitExpr_integer_run env st h

/-- A valid machine whose `long long` is as narrow as its 4-byte `long`. -/
def Machine.narrowLongLong : Machine := { longLongSize := 4 }

/-- On that machine `2 ^ 40` fits none of the three types and is typed `long long` untested. -/
theorem integerLiteral_typeAndConstant_narrowLongLong :
    Machine.narrowLongLong.Valid ∧
    (integerLiteralType 1099511627776 Machine.narrowLongLong =
        .basic (BasicType.make (literalName Machine.narrowLongLong 1099511627776) .signed
          Machine.narrowLongLong) ∧
      (literalConstant Machine.narrowLongLong 1099511627776).kind =
        (BasicType.make (literalName Machine.narrowLongLong 1099511627776) .signed
          Machine.narrowLongLong).valueKind ∧
      (literalConstant Machine.narrowLongLong 1099511627776).kind.isSigned = true ∧
      (literalConstant Machine.narrowLongLong 1099511627776).kind.width =
        Machine.narrowLongLong.sizeOf (literalName Machine.narrowLongLong 1099511627776) * 8 ∧
      (literalConstant Machine.narrowLongLong 1099511627776).toInt ≡
        (1099511627776 : Int64).toInt
          [ZMOD 2 ^ (Machine.narrowLongLong.sizeOf
            (literalName Machine.narrowLongLong 1099511627776) * 8)] ∧
      ((literalConstant Machine.narrowLongLong 1099511627776).toInt =
          (1099511627776 : Int64).toInt ↔
        InSignedRange Machine.narrowLongLong.longLongSize (1099511627776 : Int64).toInt) ∧
      (Machine.narrowLongLong.longLongSize = 8 →
        (literalConstant Machine.narrowLongLong 1099511627776).toInt =
          (1099511627776 : Int64).toInt) ∧
      ∀ (env : EmitEnv) (st : EmitState) (tag : Nat) (span : Span),
        env.machine = Machine.narrowLongLong →
        st.memo.Agrees env st.function.scope (.node tag span (.integer 1099511627776)) →
        ∃ memo, ((EmitM.emitExpr (.node tag span (.integer 1099511627776))).run env).run st =
          ((), { st with memo }.appending
            [.loadConstant (literalConstant Machine.narrowLongLong 1099511627776)])) :=
  ⟨rfl, integerLiteral_typeAndConstant Machine.narrowLongLong rfl 1099511627776⟩

example : literalName Machine.narrowLongLong 1099511627776 = .longLong := by decide

example : (literalConstant Machine.narrowLongLong 1099511627776).toInt = 0 := by decide

end CStack
