import CStack.Proofs.ShortestDigits
import CStack.Value.Display

/-!
# Shortest digits read back to their pattern

The printer writes a finite nonzero pattern by the shortest digits of its interval, and the
reader rounds a decimal to the nearest pattern. This module joins the two: the ratio the digits
stand for rounds back to the pattern they were printed from (`roundRatio_shortest`).

Every finite nonzero reading comes from one split of the pattern into sign, binade and
significand (`read_finite_split`). The interval around such a pattern is wide enough for the
digit search (`interval_wide`), so `shortest_sound` puts the digits' ratio inside it, with few
enough digits that it misses the two ends where a subnormal tie would round away
(`ratio_ne_odd_half`); `roundRatio_of_holds` then rounds it back.
-/

namespace CStack.Binary

open CStack.Decimal

namespace Format

variable {f : Format}

theorem eq_sign_add_mod {bits : Nat} (h : bits < 2 ^ (f.fractionBits + f.exponentBits + 1)) :
    bits = (if bits.testBit (f.fractionBits + f.exponentBits)
        then 2 ^ (f.fractionBits + f.exponentBits) else 0) +
      bits % 2 ^ (f.fractionBits + f.exponentBits) := by
  have hdouble : 2 ^ (f.fractionBits + f.exponentBits + 1) =
      2 * 2 ^ (f.fractionBits + f.exponentBits) := by
    rw [Nat.pow_succ, Nat.mul_comm]
  by_cases hbig : 2 ^ (f.fractionBits + f.exponentBits) ≤ bits
  · rw [Nat.testBit_of_two_pow_le_and_two_pow_add_one_gt hbig h, if_pos rfl,
      Nat.mod_eq_sub_mod hbig, Nat.mod_eq_of_lt (by omega)]
    omega
  · rw [Nat.testBit_lt_two_pow (by omega), Nat.mod_eq_of_lt (by omega)]
    simp

/-- Every finite nonzero reading is the reading of a split pattern (`read_split`): the sign
bit, then binade `s` and significand `m` below infinity. -/
theorem read_finite_split {bits m : Nat} {neg sub : Bool} {scale : Int}
    (hf : 1 ≤ f.bias + f.fractionBits)
    (hbits : bits < 2 ^ (f.fractionBits + f.exponentBits + 1))
    (hread : f.read bits = .finite neg m scale sub) (hm : m ≠ 0) :
    ∃ s, f.Significand s m ∧ 0 < m ∧ s * 2 ^ f.fractionBits + m < f.infinity ∧
      scale = (s : Int) - f.shift ∧ sub = decide (m < 2 ^ f.fractionBits) ∧
      bits = (if neg then 2 ^ (f.fractionBits + f.exponentBits) else 0) +
        (s * 2 ^ f.fractionBits + m) := by
  obtain ⟨sign, y, hy, rfl⟩ :
      ∃ (sign : Bool) (y : Nat), y < 2 ^ (f.fractionBits + f.exponentBits) ∧
      bits = (if sign then 2 ^ (f.fractionBits + f.exponentBits) else 0) + y :=
    ⟨_, _, Nat.mod_lt _ (Nat.two_pow_pos _), eq_sign_add_mod hbits⟩
  have hreading := hread
  unfold read at hread
  rw [fields_signed hy sign] at hread
  dsimp only at hread
  have hexp : y / 2 ^ f.fractionBits ≠ f.topField := by
    intro htop
    rw [if_pos htop] at hread
    split at hread <;> cases hread
  have hinf : y < f.infinity := by
    have hhigh : y / 2 ^ f.fractionBits < 2 ^ f.exponentBits := by
      rw [Nat.div_lt_iff_lt_mul (Nat.two_pow_pos _), ← Nat.pow_add, Nat.add_comm]
      exact hy
    have hbelow : y / 2 ^ f.fractionBits < f.topField := by
      simp only [topField, Nat.pow_eq] at hexp ⊢
      omega
    simpa only [infinity, Nat.pow_eq] using (Nat.div_lt_iff_lt_mul (Nat.two_pow_pos _)).mp hbelow
  have hpos : 0 < y := by
    refine Nat.pos_of_ne_zero fun hzero => hm ?_
    rw [if_neg hexp, hzero, Nat.zero_div, Nat.zero_mod, if_pos rfl, Reading.finite.injEq] at hread
    exact hread.2.1.symm
  obtain ⟨s, m', hsig, hm', rfl⟩ := exists_split (f := f) hpos
  have hsplit := read_split hf hsig hinf sign
  rw [hreading, Reading.finite.injEq] at hsplit
  obtain ⟨rfl, rfl, rfl, rfl⟩ := hsplit
  exact ⟨s, hsig, hm', hinf, rfl, rfl, rfl⟩

/-- The interval around a positive significand of at most `fractionBits + 1` bits is wide enough
for the digit search, when the format's significands have few enough digits. -/
theorem interval_wide {m : Nat} {scale : Int} {sub : Bool} (hm : 0 < m)
    (hlt : m < 2 ^ (f.fractionBits + 1))
    (hbound : 2 ^ (f.fractionBits + 3) ≤ 10 ^ (Interval.digitBudget - 1)) :
    (f.interval m scale sub).Wide := by
  have hpow : 2 ^ (f.fractionBits + 3) = 2 ^ (f.fractionBits + 1) * 4 := by
    rw [Nat.pow_add _ (f.fractionBits + 1) 2]
  unfold interval
  split
  · exact ⟨Nat.one_pos, by dsimp only; omega, by dsimp only; omega⟩
  · split
    · rename_i hpower
      rw [Nat.pow_eq] at hpower
      exact ⟨Nat.two_pos, by dsimp only; omega, by dsimp only; omega⟩
    · exact ⟨Nat.one_pos, by dsimp only; omega, by dsimp only; omega⟩

/-- The ratio of digits below `5 ^ (shift + 1)` is no odd multiple of half the least subnormal:
a whole number doubled is even, and a fraction is `decimal_ne_subnormal_end`. -/
theorem ratio_ne_odd_half {D : Digits} {o : Nat} (hvalue : D.value < 5 ^ (f.shift + 1))
    (ho : o % 2 = 1) : 2 * (D.ratio.1 * 2 ^ f.shift) ≠ o * D.ratio.2 := by
  simp only [Digits.ratio, scaleByTen, Nat.pow_eq]
  by_cases hwhole : 0 ≤ D.exponent - D.count
  · have hzero : (-(D.exponent - D.count)).toNat = 0 := by omega
    simp only [hzero, Nat.pow_zero, Nat.mul_one]
    omega
  · have hzero : (D.exponent - D.count).toNat = 0 := by omega
    simp only [hzero, Nat.pow_zero, Nat.mul_one, Nat.one_mul]
    exact decimal_ne_subnormal_end hvalue ho

/-- **The shortest digits read back.** For a format whose significands have few enough digits
for the search and whose subnormal ties lie beyond the digits it writes, the ratio of the
shortest digits of a positive finite pattern rounds to that pattern. -/
theorem roundRatio_shortest {s m : Nat}
    (hwidth : 2 ^ (f.fractionBits + 3) ≤ 10 ^ (Interval.digitBudget - 1))
    (hdigits : 10 ^ (Interval.digitBudget + 1) ≤ 5 ^ (f.shift + 1))
    (hsig : f.Significand s m) (hm : 0 < m) (hinf : s * 2 ^ f.fractionBits + m < f.infinity) :
    f.roundRatio
        (f.interval m ((s : Int) - f.shift) (decide (m < 2 ^ f.fractionBits))).shortest.ratio.1
        (f.interval m ((s : Int) - f.shift) (decide (m < 2 ^ f.fractionBits))).shortest.ratio.2 =
      s * 2 ^ f.fractionBits + m := by
  have hlt : m < 2 ^ (f.fractionBits + 1) := by
    rcases hsig with ⟨-, hsub⟩ | ⟨-, hhigh⟩
    · exact Nat.lt_trans hsub (Nat.pow_lt_pow_right (by decide) (by omega))
    · exact hhigh
  obtain ⟨hholds, hvalue, -, hcount⟩ := Interval.shortest_sound (interval_wide hm hlt hwidth)
  generalize (f.interval m ((s : Int) - f.shift) (decide (m < 2 ^ f.fractionBits))).shortest = D
    at hholds hvalue hcount ⊢
  have hsmall : D.value < 5 ^ (f.shift + 1) :=
    calc D.value < 10 ^ D.count := hvalue
      _ ≤ 10 ^ (Interval.digitBudget + 1) := Nat.pow_le_pow_right (by decide) hcount
      _ ≤ 5 ^ (f.shift + 1) := hdigits
  have hden : 0 < D.ratio.2 := by
    simp only [Digits.ratio, scaleByTen, Nat.pow_eq, Nat.one_mul]
    exact Nat.pow_pos (by decide)
  exact roundRatio_of_holds hden hsig hm hinf hholds fun _ _ =>
    ⟨ratio_ne_odd_half hsmall (by omega), ratio_ne_odd_half hsmall (by omega)⟩

theorem binary64_digitBound :
    10 ^ (Interval.digitBudget + 1) ≤ 5 ^ (binary64.shift + 1) := by
  calc 10 ^ (Interval.digitBudget + 1) = 5 ^ 41 * 2 ^ 41 := by
        rw [← Nat.mul_pow]
        rfl
    _ ≤ 5 ^ 41 * 5 ^ 41 := Nat.mul_le_mul_left _ (Nat.pow_le_pow_left (by decide) 41)
    _ = 5 ^ 82 := by rw [← Nat.pow_add]
    _ ≤ 5 ^ (binary64.shift + 1) := Nat.pow_le_pow_right (by decide) (by decide)

theorem binary64_shown_digits {bits : Nat} (hbits : bits < 2 ^ 64) {neg : Bool} {D : Digits}
    (h : binary64.shown bits = .digits neg D) :
    0 < D.count ∧ D.value < 10 ^ D.count ∧
      binary64.roundRatio D.ratio.1 D.ratio.2 = bits % 2 ^ 63 ∧ (neg = false ↔ bits < 2 ^ 63) := by
  unfold shown at h
  split at h
  · cases h
  · cases h
  rename_i neg' m scale sub hread
  split at h
  · cases h
  rename_i hm
  injection h with hneg hD
  subst hneg hD
  obtain ⟨s, hsig, hpos, hinf, rfl, rfl, hsplit⟩ := read_finite_split (by decide) hbits hread hm
  have hlt : m < 2 ^ (binary64.fractionBits + 1) := by
    rcases hsig with ⟨-, hsub⟩ | ⟨-, hhigh⟩
    · exact Nat.lt_trans hsub (Nat.pow_lt_pow_right (by decide) (by omega))
    · exact hhigh
  obtain ⟨-, hvalue, hcount, -⟩ := Interval.shortest_sound (interval_wide hpos hlt (by decide))
  have hmagnitude : s * 2 ^ binary64.fractionBits + m < 2 ^ 63 :=
    Nat.lt_of_lt_of_le hinf (by decide)
  have hsignBit : 2 ^ (binary64.fractionBits + binary64.exponentBits) = 2 ^ 63 := rfl
  refine ⟨hcount, hvalue, (roundRatio_shortest (by decide) binary64_digitBound hsig hpos hinf).trans
    ?_, ?_⟩
  · cases neg' <;> simp only [hsplit, hsignBit, Bool.false_eq_true, if_false, if_true,
      Nat.zero_add, Nat.add_mod_left, Nat.mod_eq_of_lt hmagnitude]
  · cases neg' <;> simp only [hsplit, hsignBit, Bool.false_eq_true, if_false, if_true,
      Nat.zero_add, hmagnitude, Bool.true_eq_false, false_iff, Nat.not_lt,
      Nat.le_add_right]

end Format

end Binary

/-! ### Positional text -/

namespace Decimal

theorem Digits.toList_text (d : Digits) :
    d.text.toList = List.replicate (d.count - (Nat.toDigits 10 d.value).length) '0' ++
      Nat.toDigits 10 d.value := by
  simp [Digits.text, zeros, ← String.length_toList]

theorem Digits.text_spec {d : Digits} (hcount : 0 < d.count) (hvalue : d.value < 10 ^ d.count) :
    d.text.toList.length = d.count ∧ (∀ c ∈ d.text.toList, c.isDigit = true) ∧
      Nat.ofDigitChars 10 d.text.toList 0 = d.value := by
  have hlen : (Nat.toDigits 10 d.value).length ≤ d.count :=
    (Nat.length_toDigits_le_iff (by decide) hcount).mpr hvalue
  rw [Digits.toList_text]
  refine ⟨by simp only [List.length_append, List.length_replicate]; omega, ?_, ?_⟩
  · intro c hc
    rcases List.mem_append.mp hc with hzero | hdigit
    · rw [List.eq_of_mem_replicate hzero]
      decide
    · exact Nat.isDigit_of_mem_toDigits (by decide) (by decide) hdigit
  · rw [Nat.ofDigitChars_append, Nat.ofDigitChars_replicate_zero, Nat.mul_zero,
      Nat.ofDigitChars_ten_toDigits]

theorem positional_of_point {d : Digits} (hcount : 0 < d.count) (hvalue : d.value < 10 ^ d.count)
    (hpoint : '.' ∈ (positional d 0).toList) :
    ∃ ds₁ ds₂, (positional d 0).toList = ds₁ ++ '.' :: ds₂ ∧ ds₁ ≠ [] ∧
      (∀ c ∈ ds₁ ++ ds₂, c.isDigit = true) ∧ Nat.ofDigitChars 10 (ds₁ ++ ds₂) 0 = d.value ∧
      (ds₂.length : Int) = d.count - d.exponent := by
  obtain ⟨hlen, hdigits, hval⟩ := Digits.text_spec hcount hvalue
  have hlength : d.text.length = d.count := by rw [← String.length_toList, hlen]
  unfold positional at hpoint ⊢
  dsimp only at hpoint ⊢
  split
  · -- below one: `0.`, then zeros up to the first digit
    rename_i hexp
    refine ⟨['0'], List.replicate (-d.exponent).toNat '0' ++ d.text.toList, ?_, by simp, ?_, ?_,
      ?_⟩
    · simp [zeros]
    · intro c hc
      simp only [List.cons_append, List.nil_append, List.mem_cons, List.mem_append] at hc
      rcases hc with rfl | hzero | hdigit
      · decide
      · rw [List.eq_of_mem_replicate hzero]
        decide
      · exact hdigits c hdigit
    · rw [← List.replicate_one, ← List.append_assoc, List.replicate_append_replicate,
        Nat.ofDigitChars_append,
        Nat.ofDigitChars_replicate_zero, Nat.mul_zero, hval]
    · simp only [List.length_append, List.length_replicate, hlen]
      omega
  · split
    · -- a point among the digits
      rename_i hexp hinside
      refine ⟨d.text.toList.take d.exponent.toNat, d.text.toList.drop d.exponent.toNat, ?_, ?_,
        ?_, ?_, ?_⟩
      · simp [zeros]
      · intro hnil
        rcases List.take_eq_nil_iff.mp hnil with hzero | hempty
        · omega
        · rw [hempty, List.length_nil] at hlen
          omega
      · rw [List.take_append_drop]
        exact hdigits
      · rw [List.take_append_drop, hval]
      · rw [List.length_drop, hlen]
        rw [hlength] at hinside
        omega
    · -- a whole number has no point
      exfalso
      rename_i hexp hinside
      rw [if_neg hexp, if_neg hinside] at hpoint
      simp only [gt_iff_lt, Nat.lt_irrefl, if_false, String.toList_append, zeros,
        String.toList_ofList, List.mem_append] at hpoint
      rcases hpoint with (hdigit | hzero) | hnone
      · exact absurd (hdigits '.' hdigit) (by decide)
      · exact absurd (List.eq_of_mem_replicate hzero) (by decide)
      · simp at hnone

end Decimal

theorem float64Text_of_point {b : UInt64} (h : '.' ∈ (float64Text b).toList) :
    ∃ ds₁ ds₂, (float64Text b).toList =
        (if b.toNat < 2 ^ 63 then [] else ['-']) ++ ds₁ ++ '.' :: ds₂ ∧ ds₁ ≠ [] ∧
      (∀ c ∈ ds₁ ++ ds₂, c.isDigit = true) ∧
      Binary.binary64.roundRatio (Nat.ofDigitChars 10 (ds₁ ++ ds₂) 0) (10 ^ ds₂.length) =
        b.toNat % 2 ^ 63 := by
  unfold float64Text Binary.Format.text at h ⊢
  cases hshown : Binary.binary64.shown b.toNat with
  | nan => rw [hshown] at h; exact absurd h (by decide)
  | infinite neg => rw [hshown] at h; cases neg <;> exact absurd h (by decide)
  | zero neg => rw [hshown] at h; cases neg <;> exact absurd h (by decide)
  | digits neg D =>
    obtain ⟨hcount, hvalue, hround, hsign⟩ :=
      Binary.Format.binary64_shown_digits b.toNat_lt hshown
    have hrender : Decimal.Layout.plain.render (.digits neg D) =
        (if neg then "-" else "") ++ Decimal.positional D 0 := rfl
    rw [hshown, hrender] at h
    rw [hrender]
    have hpoint : '.' ∈ (Decimal.positional D 0).toList := by
      cases neg
      · simpa using h
      · simpa using h
    obtain ⟨ds₁, ds₂, htext, hne, hdigits, hval, hlen⟩ :=
      Decimal.positional_of_point hcount hvalue hpoint
    refine ⟨ds₁, ds₂, ?_, hne, hdigits, ?_⟩
    · rw [String.toList_append, htext]
      cases neg
      · rw [if_pos (hsign.mp rfl)]
        rfl
      · rw [if_neg (fun hlt => Bool.noConfusion (hsign.mpr hlt))]
        rfl
    · have hratio : D.ratio = (D.value, 10 ^ ds₂.length) := by
        have hwhole : (D.exponent - D.count).toNat = 0 := by omega
        have hfraction : (-(D.exponent - D.count)).toNat = ds₂.length := by omega
        simp only [Decimal.Digits.ratio, Decimal.scaleByTen, hwhole, hfraction, Nat.pow_eq,
          Nat.pow_zero, Nat.mul_one, Nat.one_mul]
      rw [hval, ← hround, hratio]

end CStack
