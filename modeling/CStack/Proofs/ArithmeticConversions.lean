import CStack.Types.Conversion

/-!
# The usual arithmetic conversions are a maximum

`BasicType.common` picks the type binary arithmetic is done in. Up to type identity (kind,
signedness and width, not the name) its answer is a maximum. A float beats every integer, and of
two floats the wider wins. Integers are first promoted, and then the wider wins; of two of one
width, the unsigned one wins.

So two measures of a type decide the identity of `common`'s answer. One is the width of a float
(`floatWidth`, zero for an integer). The other is an integer's rank after promotion
(`integerRank`: twice the width, plus one if unsigned). `common` takes the larger of each measure
(`floatWidth_common`, `integerRank_common`), and its answers, like promoted types, are identified
by these measures (`same_of_measures`). Commutativity, associativity and `common a a` being `a`
promoted follow from the same laws of `max`. Nothing of the machine's widths is used, so the laws
hold on every machine.

The main statement is `BasicType.common_lawful`.
-/

namespace CStack

namespace BasicType

variable {m : Machine} {a b c x y : BasicType}

theorem same_eq_true :
    a.same b = true ↔ a.kind = b.kind ∧ a.signedness = b.signedness ∧ a.size = b.size := by
  simp [same, and_assoc]

theorem kind_int (m : Machine) : (BasicType.int m).kind = .integer := rfl

theorem size_int (m : Machine) : (BasicType.int m).size = m.intSize := rfl

theorem signedness_int (m : Machine) : (BasicType.int m).signedness = .signed := rfl

theorem kind_withSignedness (s : Signedness) : (b.withSignedness s).kind = b.kind := by
  unfold withSignedness
  split <;> rfl

theorem size_withSignedness (s : Signedness) : (b.withSignedness s).size = b.size := by
  unfold withSignedness
  split <;> rfl

/-! ### Promoted types -/

/-- A type as `make` builds it, as far as the conversions care: a float is signed. -/
def FloatsSigned (b : BasicType) : Prop := b.kind = .float → b.signedness = .signed

theorem make_floatsSigned (n : BasicName) (s : Signedness) : (make n s m).FloatsSigned := by
  intro hfloat
  by_cases hbool : n = .bool
  · simp [make, kind, hbool] at hfloat
  · by_cases hf : n.isFloat = true
    · simp [make, hbool, hf]
    · simp [make, kind, hbool, hf] at hfloat

/-- A type as promotion leaves it: a signed float, or an integer at least as wide as `int`. -/
def Promoted (m : Machine) (b : BasicType) : Prop :=
  (b.kind = .float ∧ b.signedness = .signed) ∨ (b.kind = .integer ∧ m.intSize ≤ b.size)

theorem floatsSigned_of_promoted (h : b.Promoted m) : b.FloatsSigned := by
  intro hfloat
  rcases h with ⟨-, hsigned⟩ | ⟨hint, -⟩
  · exact hsigned
  · rw [hfloat] at hint
    cases hint

theorem Promoted.of_not_float (h : b.Promoted m) (hf : b.kind ≠ .float) :
    b.kind = .integer ∧ m.intSize ≤ b.size :=
  h.resolve_left fun hfloat => hf hfloat.1

theorem promote_of_float (h : b.kind = .float) : b.promote m = b := by
  simp [promote, h]

theorem promote_promoted (hb : b.FloatsSigned) : (b.promote m).Promoted m := by
  unfold promote
  split
  · next hfloat => exact .inl ⟨hfloat, hb hfloat⟩
  · exact .inr ⟨rfl, Nat.le_refl _⟩
  · next hint =>
    split
    · exact .inr ⟨rfl, Nat.le_refl _⟩
    · next hsize => exact .inr ⟨hint, Nat.le_of_not_lt hsize⟩

theorem promote_of_promoted (h : b.Promoted m) : b.promote m = b := by
  rcases h with ⟨hfloat, -⟩ | ⟨hint, hsize⟩
  · exact promote_of_float hfloat
  · simp [promote, hint, Nat.not_lt.mpr hsize]

theorem kind_promote_eq_float : (b.promote m).kind = .float ↔ b.kind = .float := by
  unfold promote
  split
  · next hfloat => simp [hfloat]
  · next hbool => simp [hbool, kind_int]
  · next hint => split <;> simp [hint, kind_int]

theorem kind_promote_of_not_float (hb : b.FloatsSigned) (hf : b.kind ≠ .float) :
    (b.promote m).kind = .integer :=
  ((promote_promoted hb).of_not_float (by rwa [Ne, kind_promote_eq_float])).1

/-! ### The two measures -/

/-- The width of a float; `0` for `bool` and the integers. -/
def floatWidth (b : BasicType) : Nat := if b.kind = .float then b.size else 0

/-- `1` for an unsigned type, `0` for a signed one. -/
def unsignedBit (b : BasicType) : Nat := if b.signedness = .unsigned then 1 else 0

/-- Where an integer stands after promotion: wider types above narrower ones, and of one
width the unsigned type above the signed. -/
def integerRank (m : Machine) (b : BasicType) : Nat :=
  2 * (b.promote m).size + (b.promote m).unsignedBit

theorem integerRank_of_promoted (h : b.Promoted m) :
    integerRank m b = 2 * b.size + b.unsignedBit := by
  rw [integerRank, promote_of_promoted h]

theorem unsignedBit_le_one (b : BasicType) : b.unsignedBit ≤ 1 := by
  unfold unsignedBit
  split <;> omega

/-- Promoted types are identified by their measures: two floats by their width, two integers
by their rank. -/
theorem same_of_measures (hx : x.Promoted m) (hy : y.Promoted m)
    (h : (x.kind = .float ∧ y.kind = .float ∧ x.floatWidth = y.floatWidth) ∨
      (x.kind ≠ .float ∧ y.kind ≠ .float ∧ integerRank m x = integerRank m y)) :
    x.same y = true := by
  rw [same_eq_true]
  rcases h with ⟨hxf, hyf, hwidth⟩ | ⟨hxf, hyf, hrank⟩
  · -- promoted floats are signed
    simp only [floatWidth, hxf, hyf, if_true] at hwidth
    exact ⟨hxf.trans hyf.symm,
      (floatsSigned_of_promoted hx hxf).trans (floatsSigned_of_promoted hy hyf).symm, hwidth⟩
  · -- promoted integers: the rank gives the width and the signedness
    obtain ⟨hxi, -⟩ := hx.of_not_float hxf
    obtain ⟨hyi, -⟩ := hy.of_not_float hyf
    rw [integerRank_of_promoted hx, integerRank_of_promoted hy] at hrank
    have hbx := unsignedBit_le_one x
    have hby := unsignedBit_le_one y
    have hsize : x.size = y.size := by omega
    have hbit : x.unsignedBit = y.unsignedBit := by omega
    refine ⟨hxi.trans hyi.symm, ?_, hsize⟩
    unfold unsignedBit at hbit
    cases hxs : x.signedness <;> cases hys : y.signedness <;> simp_all

/-! ### `common` by cases -/

/-- The integer part of `common`, on promoted operands. -/
def commonInteger (l r : BasicType) : BasicType :=
  if l.same r then l
  else if l.size != r.size then (if l.size > r.size then l else r)
  else l.withSignedness .unsigned

theorem common_float_float (ha : a.kind = .float) (hb : b.kind = .float) :
    common a b m = if a.size < b.size then b else a := by
  simp [common, ha, hb]

theorem common_float_left (ha : a.kind = .float) (hb : b.kind ≠ .float) : common a b m = a := by
  cases hk : b.kind <;> simp_all [common]

theorem common_float_right (ha : a.kind ≠ .float) (hb : b.kind = .float) : common a b m = b := by
  cases hk : a.kind <;> simp_all [common]

theorem common_integer (ha : a.kind ≠ .float) (hb : b.kind ≠ .float) :
    common a b m = commonInteger (a.promote m) (b.promote m) := by
  cases hka : a.kind <;> cases hkb : b.kind <;> simp_all [common, commonInteger]

theorem commonInteger_cases (l r : BasicType) :
    commonInteger l r = l ∨ commonInteger l r = r ∨
      commonInteger l r = l.withSignedness .unsigned := by
  unfold commonInteger
  split
  · exact .inl rfl
  · split
    · split
      · exact .inl rfl
      · exact .inr (.inl rfl)
    · exact .inr (.inr rfl)

theorem kind_commonInteger (hl : l.kind = .integer) (hr : r.kind = .integer) :
    (commonInteger l r).kind = .integer := by
  rcases commonInteger_cases l r with h | h | h <;> rw [h] <;> simp [hl, hr, kind_withSignedness]

theorem commonInteger_promoted (hl : l.Promoted m) (hr : r.Promoted m)
    (hli : l.kind = .integer) (hri : r.kind = .integer) : (commonInteger l r).Promoted m := by
  have hls := (hl.of_not_float (by simp [hli])).2
  have hrs := (hr.of_not_float (by simp [hri])).2
  refine .inr ⟨kind_commonInteger hli hri, ?_⟩
  rcases commonInteger_cases l r with h | h | h <;> rw [h] <;> simp [hls, hrs, size_withSignedness]

theorem integerRank_commonInteger (hl : l.Promoted m) (hr : r.Promoted m)
    (hli : l.kind = .integer) (hri : r.kind = .integer) :
    integerRank m (commonInteger l r) = max (integerRank m l) (integerRank m r) := by
  rw [integerRank_of_promoted (commonInteger_promoted hl hr hli hri),
    integerRank_of_promoted hl, integerRank_of_promoted hr]
  have hbl := unsignedBit_le_one l
  have hbr := unsignedBit_le_one r
  unfold commonInteger
  split
  · next hsame =>
    obtain ⟨-, hsign, hwidth⟩ := same_eq_true.mp hsame
    simp only [unsignedBit, hsign, hwidth]
    omega
  · next hsame =>
    split
    · next hsize =>
      simp only [bne_iff_ne, ne_eq] at hsize
      split <;> omega
    · next hsize =>
      simp only [bne_iff_ne, ne_eq, Decidable.not_not] at hsize
      have hsign : l.signedness ≠ r.signedness := fun h =>
        hsame (same_eq_true.mpr ⟨hli.trans hri.symm, h, hsize⟩)
      have hunsigned : (l.withSignedness .unsigned).unsignedBit = 1 := by
        simp [withSignedness, hli, unsignedBit]
      rw [size_withSignedness, hunsigned, hsize]
      unfold unsignedBit
      cases hls : l.signedness <;> cases hrs : r.signedness <;> simp_all

/-! ### `common` takes the larger measures -/

theorem common_promoted (ha : a.FloatsSigned) (hb : b.FloatsSigned) :
    (common a b m).Promoted m := by
  by_cases hfa : a.kind = .float <;> by_cases hfb : b.kind = .float
  · rw [common_float_float hfa hfb]
    split
    · exact .inl ⟨hfb, hb hfb⟩
    · exact .inl ⟨hfa, ha hfa⟩
  · rw [common_float_left hfa hfb]
    exact .inl ⟨hfa, ha hfa⟩
  · rw [common_float_right hfa hfb]
    exact .inl ⟨hfb, hb hfb⟩
  · have hpa := promote_promoted (m := m) ha
    have hpb := promote_promoted (m := m) hb
    rw [common_integer hfa hfb]
    exact commonInteger_promoted hpa hpb (kind_promote_of_not_float ha hfa)
      (kind_promote_of_not_float hb hfb)

theorem kind_common_eq_float :
    (common a b m).kind = .float ↔ a.kind = .float ∨ b.kind = .float := by
  by_cases hfa : a.kind = .float <;> by_cases hfb : b.kind = .float
  · rw [common_float_float hfa hfb]
    split <;> simp [hfa, hfb]
  · simp [common_float_left hfa hfb, hfa]
  · simp [common_float_right hfa hfb, hfb]
  · rw [common_integer hfa hfb]
    have hia : (a.promote m).kind ≠ .float := by simpa [kind_promote_eq_float] using hfa
    have hib : (b.promote m).kind ≠ .float := by simpa [kind_promote_eq_float] using hfb
    rcases commonInteger_cases (a.promote m) (b.promote m) with h | h | h <;> rw [h] <;>
      simp [hia, hib, hfa, hfb, kind_withSignedness]

theorem floatWidth_common : (common a b m).floatWidth = max a.floatWidth b.floatWidth := by
  by_cases hfa : a.kind = .float <;> by_cases hfb : b.kind = .float
  · rw [common_float_float hfa hfb]
    split <;> simp [floatWidth, hfa, hfb] <;> omega
  · simp [common_float_left hfa hfb, floatWidth, hfa, hfb]
  · simp [common_float_right hfa hfb, floatWidth, hfa, hfb]
  · have hk : (common a b m).kind ≠ .float := by simp [kind_common_eq_float, hfa, hfb]
    simp [floatWidth, hk, hfa, hfb]

theorem integerRank_common (ha : a.FloatsSigned) (hb : b.FloatsSigned)
    (hfa : a.kind ≠ .float) (hfb : b.kind ≠ .float) :
    integerRank m (common a b m) = max (integerRank m a) (integerRank m b) := by
  have hpa := promote_promoted (m := m) ha
  have hpb := promote_promoted (m := m) hb
  rw [common_integer hfa hfb, integerRank_commonInteger hpa hpb
      (kind_promote_of_not_float ha hfa) (kind_promote_of_not_float hb hfb),
    integerRank_of_promoted hpa, integerRank_of_promoted hpb, integerRank, integerRank]

/-! ### The laws -/

theorem common_comm (ha : a.FloatsSigned) (hb : b.FloatsSigned) :
    (common a b m).same (common b a m) = true := by
  apply same_of_measures (common_promoted ha hb) (common_promoted hb ha)
  by_cases hf : a.kind = .float ∨ b.kind = .float
  · refine .inl ⟨kind_common_eq_float.mpr hf, kind_common_eq_float.mpr hf.symm, ?_⟩
    rw [floatWidth_common, floatWidth_common, Nat.max_comm]
  · rw [not_or] at hf
    refine .inr ⟨by simp [kind_common_eq_float, hf], by simp [kind_common_eq_float, hf], ?_⟩
    rw [integerRank_common ha hb hf.1 hf.2, integerRank_common hb ha hf.2 hf.1, Nat.max_comm]

theorem common_assoc (ha : a.FloatsSigned) (hb : b.FloatsSigned) (hc : c.FloatsSigned) :
    (common (common a b m) c m).same (common a (common b c m) m) = true := by
  have hab := common_promoted (m := m) ha hb
  have hbc := common_promoted (m := m) hb hc
  apply same_of_measures (common_promoted (floatsSigned_of_promoted hab) hc)
    (common_promoted ha (floatsSigned_of_promoted hbc))
  by_cases hf : a.kind = .float ∨ b.kind = .float ∨ c.kind = .float
  · refine .inl ⟨?_, ?_, ?_⟩
    · rw [kind_common_eq_float, kind_common_eq_float]
      exact or_assoc.mpr hf
    · rw [kind_common_eq_float, kind_common_eq_float]
      exact hf
    · rw [floatWidth_common, floatWidth_common, floatWidth_common, floatWidth_common,
        Nat.max_assoc]
  · simp only [not_or] at hf
    obtain ⟨hfa, hfb, hfc⟩ := hf
    have hfab : (common a b m).kind ≠ .float := by simp [kind_common_eq_float, hfa, hfb]
    have hfbc : (common b c m).kind ≠ .float := by simp [kind_common_eq_float, hfb, hfc]
    refine .inr ⟨by simp [kind_common_eq_float, hfa, hfb, hfc],
      by simp [kind_common_eq_float, hfa, hfb, hfc], ?_⟩
    rw [integerRank_common (floatsSigned_of_promoted hab) hc hfab hfc,
      integerRank_common ha (floatsSigned_of_promoted hbc) hfa hfbc,
      integerRank_common ha hb hfa hfb, integerRank_common hb hc hfb hfc, Nat.max_assoc]

theorem common_self (ha : a.FloatsSigned) : (common a a m).same (a.promote m) = true := by
  have hpa := promote_promoted (m := m) ha
  apply same_of_measures (common_promoted ha ha) hpa
  by_cases hfa : a.kind = .float
  · refine .inl ⟨kind_common_eq_float.mpr (.inl hfa), kind_promote_eq_float.mpr hfa, ?_⟩
    rw [floatWidth_common, Nat.max_self, promote_of_float hfa]
  · refine .inr ⟨by simp [kind_common_eq_float, hfa], by simp [kind_promote_eq_float, hfa], ?_⟩
    rw [integerRank_common ha ha hfa hfa, Nat.max_self, integerRank, integerRank,
      promote_of_promoted hpa]

/-- The usual arithmetic conversions on types as `make` builds them, on every machine: up to
type identity, the common type does not depend on the order or the grouping of the operands, and
the common type of a type with itself is the type promoted. -/
theorem common_lawful (m : Machine) (x y z : BasicName) (sx sy sz : Signedness) :
    let a := make x sx m
    let b := make y sy m
    let c := make z sz m
    (common a b m).same (common b a m) = true ∧
    (common (common a b m) c m).same (common a (common b c m) m) = true ∧
    (common a a m).same (a.promote m) = true :=
  ⟨common_comm (make_floatsSigned x sx) (make_floatsSigned y sy),
    common_assoc (make_floatsSigned x sx) (make_floatsSigned y sy) (make_floatsSigned z sz),
    common_self (make_floatsSigned x sx)⟩

end BasicType

end CStack
