import Mathlib
import CStack.Float.Round
import CStack.Float.Text

/-!
# Ratios that round to a pattern

`Format.roundRatio` rounds a positive ratio to the nearest value of a format. Its law is stated on
the interval of reals around a positive finite pattern, the one the shortest-digit printer
searches (`Format.interval`): every ratio inside it rounds back to the pattern.

A positive finite pattern is `s * 2 ^ fractionBits + m` for a significand `m` of its binade `s`
(`Format.Significand`): below `2 ^ fractionBits` in the subnormal range, where `s = 0`, and of
`fractionBits + 1` bits above it. Its value is `m * 2 ^ (s - shift)`. A ratio at or above that
value and below half a unit more keeps `m`; one below it and at least half a unit less keeps the
significand below and rounds up to `m`. The one binade boundary in between is where `m` is a power
of two, whose lower neighbour lies half as far away, so that side of the interval is a quarter
unit wide.

The printer's interval counts a subnormal significand as even, so for an odd one its ends are
included although a tie there rounds away; the law asks for those two ends to be missed, which
a decimal with few digits always does (`decimal_ne_subnormal_end`).
-/

namespace CStack

namespace Decimal

/-- The ratio `num / den` lies in the interval, at an end only when the ends are included. -/
def Interval.Holds (iv : Interval) (num den : Nat) : Prop :=
  let low := (iv.mant - iv.minus) * 2 ^ iv.exp.toNat * den
  let high := (iv.mant + iv.plus) * 2 ^ iv.exp.toNat * den
  let q := num * 2 ^ (-iv.exp).toNat
  if iv.inclusive then low ≤ q ∧ q ≤ high else low < q ∧ q < high

theorem scaled_cross {b a d n i j k l : Nat} (h : i + l = k + j) :
    a * b ^ i * d * b ^ l = a * b ^ k * d * b ^ j ∧ n * b ^ j * b ^ l = n * b ^ l * b ^ j := by
  constructor
  · calc a * b ^ i * d * b ^ l = a * d * b ^ (i + l) := by rw [Nat.pow_add]; ac_rfl
      _ = a * d * b ^ (k + j) := by rw [h]
      _ = a * b ^ k * d * b ^ j := by rw [Nat.pow_add]; ac_rfl
  · ac_rfl

section Scaled

variable {b a d n i j k l : Nat} (hb : 0 < b) (h : i + l = k + j)
include hb h

theorem scaled_le_iff : a * b ^ i * d ≤ n * b ^ j ↔ a * b ^ k * d ≤ n * b ^ l := by
  obtain ⟨hleft, hright⟩ := scaled_cross (a := a) (d := d) (n := n) h
  rw [← Nat.mul_le_mul_right_iff (Nat.pow_pos hb), hleft, hright,
    Nat.mul_le_mul_right_iff (Nat.pow_pos hb)]

theorem scaled_lt_iff : a * b ^ i * d < n * b ^ j ↔ a * b ^ k * d < n * b ^ l := by
  obtain ⟨hleft, hright⟩ := scaled_cross (a := a) (d := d) (n := n) h
  rw [← Nat.mul_lt_mul_right (Nat.pow_pos hb), hleft, hright,
    Nat.mul_lt_mul_right (Nat.pow_pos hb)]

theorem le_scaled_iff : n * b ^ j ≤ a * b ^ i * d ↔ n * b ^ l ≤ a * b ^ k * d := by
  rw [← Nat.not_lt, ← Nat.not_lt, scaled_lt_iff hb h]

theorem lt_scaled_iff : n * b ^ j < a * b ^ i * d ↔ n * b ^ l < a * b ^ k * d := by
  rw [← Nat.not_le, ← Nat.not_le, scaled_le_iff hb h]

end Scaled

theorem Interval.holds_iff {iv : Interval} {s shift c : Nat}
    (hexp : iv.exp = (s : Int) - shift - c) (num den : Nat) :
    iv.Holds num den ↔
      if iv.inclusive then
        (iv.mant - iv.minus) * 2 ^ s * den ≤ num * 2 ^ (shift + c) ∧
          num * 2 ^ (shift + c) ≤ (iv.mant + iv.plus) * 2 ^ s * den
      else
        (iv.mant - iv.minus) * 2 ^ s * den < num * 2 ^ (shift + c) ∧
          num * 2 ^ (shift + c) < (iv.mant + iv.plus) * 2 ^ s * den := by
  have h : iv.exp.toNat + (shift + c) = s + (-iv.exp).toNat := by omega
  unfold Holds
  dsimp only
  split
  · rw [scaled_le_iff (by decide) h, le_scaled_iff (by decide) h]
  · rw [scaled_lt_iff (by decide) h, lt_scaled_iff (by decide) h]

end Decimal

namespace Binary

open Decimal

/-! ### The rounding step -/

theorem roundsUp_eq_false {m rem unit : Nat}
    (h : 2 * rem < unit ∨ (2 * rem = unit ∧ m % 2 = 0)) : roundsUp m rem unit = false := by
  unfold roundsUp
  rcases h with h | ⟨h, hm⟩
  · simp only [Bool.or_eq_false_iff, decide_eq_false_iff_not, Bool.and_eq_false_iff]
    omega
  · have hne : ¬ unit < 2 * rem := by omega
    simp [hne, hm]

theorem roundsUp_eq_true {m rem unit : Nat}
    (h : unit < 2 * rem ∨ (2 * rem = unit ∧ m % 2 = 1)) : roundsUp m rem unit = true := by
  unfold roundsUp
  rcases h with h | ⟨h, hm⟩
  · simp [h]
  · simp [h, hm]

namespace Format

variable {f : Format}

/-- `m` is the significand of the positive value `m * 2 ^ (s - f.shift)` as a pattern holds it:
below `2 ^ fractionBits` in the subnormal range, where `s = 0`, and of exactly
`fractionBits + 1` bits above it. -/
def Significand (f : Format) (s m : Nat) : Prop :=
  (s = 0 ∧ m < 2 ^ f.fractionBits) ∨ (2 ^ f.fractionBits ≤ m ∧ m < 2 ^ (f.fractionBits + 1))

theorem split_of_bounds {s m t : Nat} (hsig : f.Significand s m) (hlo : m * 2 ^ s ≤ t)
    (hhi : t < (m + 1) * 2 ^ s) : t.log2 - f.fractionBits = s ∧ t >>> s = m := by
  rcases hsig with ⟨rfl, hm⟩ | ⟨hlow, hhigh⟩
  · -- a subnormal significand: no bit is dropped
    simp only [Nat.pow_zero, Nat.mul_one] at hlo hhi
    have ht : t = m := by omega
    subst ht
    refine ⟨?_, Nat.shiftRight_zero⟩
    by_cases h0 : t = 0
    · simp [h0]
    · have := (Nat.log2_lt h0).mpr hm
      omega
  · have hpos : 2 ^ (f.fractionBits + s) ≤ t := by
      rw [Nat.pow_add]
      exact Nat.le_trans (Nat.mul_le_mul_right _ hlow) hlo
    have ht0 : t ≠ 0 := Nat.ne_of_gt (Nat.lt_of_lt_of_le (Nat.two_pow_pos _) hpos)
    have hlt : t < 2 ^ (f.fractionBits + s + 1) := by
      calc t < (m + 1) * 2 ^ s := hhi
        _ ≤ 2 ^ (f.fractionBits + 1) * 2 ^ s := Nat.mul_le_mul_right _ hhigh
        _ = 2 ^ (f.fractionBits + s + 1) := by rw [← Nat.pow_add]; congr 1; omega
    have hlog₁ := (Nat.le_log2 ht0).mpr hpos
    have hlog₂ := (Nat.log2_lt ht0).mpr hlt
    refine ⟨by omega, ?_⟩
    rw [Nat.shiftRight_eq_div_pow]
    exact Nat.div_eq_of_lt_le hlo hhi

theorem roundRatio_of_split {num den s m : Nat}
    (hs : (num * 2 ^ f.shift / den).log2 - f.fractionBits = s)
    (hm : (num * 2 ^ f.shift / den) >>> s = m) :
    f.roundRatio num den =
      min (s * 2 ^ f.fractionBits + m +
        (if roundsUp m (num * 2 ^ f.shift - m * 2 ^ s * den) (2 ^ s * den) then 1 else 0))
        f.infinity := by
  simp only [roundRatio, Nat.pow_eq, hs, hm]

section Sides

variable {s m num den : Nat} (hden : 0 < den)
include hden

theorem roundRatio_of_above (hsig : f.Significand s m)
    (hinf : s * 2 ^ f.fractionBits + m < f.infinity)
    (hlow : m * (2 ^ s * den) ≤ num * 2 ^ f.shift)
    (hhigh : 2 * (num * 2 ^ f.shift) < 2 * (m * (2 ^ s * den)) + 2 ^ s * den ∨
      (2 * (num * 2 ^ f.shift) = 2 * (m * (2 ^ s * den)) + 2 ^ s * den ∧ m % 2 = 0)) :
    f.roundRatio num den = s * 2 ^ f.fractionBits + m := by
  have hunit : 0 < 2 ^ s * den := Nat.mul_pos (Nat.two_pow_pos s) hden
  have hlo : m * 2 ^ s ≤ num * 2 ^ f.shift / den := by
    rw [Nat.le_div_iff_mul_le hden, Nat.mul_assoc]
    exact hlow
  have hhi : num * 2 ^ f.shift / den < (m + 1) * 2 ^ s := by
    rw [Nat.div_lt_iff_lt_mul hden, Nat.mul_assoc, Nat.add_one_mul]
    omega
  have hstay : 2 * (num * 2 ^ f.shift - m * 2 ^ s * den) < 2 ^ s * den ∨
      (2 * (num * 2 ^ f.shift - m * 2 ^ s * den) = 2 ^ s * den ∧ m % 2 = 0) := by
    rw [Nat.mul_assoc]
    omega
  obtain ⟨hs, hm⟩ := split_of_bounds hsig hlo hhi
  rw [roundRatio_of_split hs hm, roundsUp_eq_false hstay]
  simp only [Bool.false_eq_true, if_false, Nat.add_zero]
  exact Nat.min_eq_left (Nat.le_of_lt hinf)

theorem roundRatio_of_below (hsig : f.Significand s (m - 1)) (hm : 0 < m)
    (hinf : s * 2 ^ f.fractionBits + m < f.infinity)
    (hlow : 2 * (m * (2 ^ s * den)) < 2 * (num * 2 ^ f.shift) + 2 ^ s * den ∨
      (2 * (m * (2 ^ s * den)) = 2 * (num * 2 ^ f.shift) + 2 ^ s * den ∧ m % 2 = 0))
    (hhigh : num * 2 ^ f.shift < m * (2 ^ s * den)) :
    f.roundRatio num den = s * 2 ^ f.fractionBits + m := by
  have hprev : (m - 1) * (2 ^ s * den) = m * (2 ^ s * den) - 2 ^ s * den := Nat.sub_one_mul _ _
  have hge : 2 ^ s * den ≤ m * (2 ^ s * den) := Nat.le_mul_of_pos_left _ hm
  have hlo : (m - 1) * 2 ^ s ≤ num * 2 ^ f.shift / den := by
    rw [Nat.le_div_iff_mul_le hden, Nat.mul_assoc, hprev]
    omega
  have hhi : num * 2 ^ f.shift / den < (m - 1 + 1) * 2 ^ s :=
    (Nat.div_lt_iff_lt_mul hden).mpr (by rw [Nat.sub_add_cancel hm, Nat.mul_assoc]; exact hhigh)
  -- the remainder above the significand below reaches half a unit, and passes it unless that
  -- significand is even
  have hround : 2 ^ s * den < 2 * (num * 2 ^ f.shift - (m - 1) * 2 ^ s * den) ∨
      (2 * (num * 2 ^ f.shift - (m - 1) * 2 ^ s * den) = 2 ^ s * den ∧ (m - 1) % 2 = 1) := by
    rw [Nat.mul_assoc, hprev]
    omega
  obtain ⟨hs, hm'⟩ := split_of_bounds hsig hlo hhi
  rw [roundRatio_of_split hs hm', roundsUp_eq_true hround]
  simp only [if_true]
  rw [Nat.add_assoc, Nat.sub_add_cancel hm]
  exact Nat.min_eq_left (Nat.le_of_lt hinf)

theorem roundRatio_of_below_power
    (hinf : s * 2 ^ f.fractionBits + 2 ^ f.fractionBits < f.infinity)
    (hlow : 4 * (2 ^ f.fractionBits * (2 ^ s * den)) ≤ 4 * (num * 2 ^ f.shift) + 2 ^ s * den)
    (hhigh : num * 2 ^ f.shift < 2 ^ f.fractionBits * (2 ^ s * den)) :
    f.roundRatio num den = s * 2 ^ f.fractionBits + 2 ^ f.fractionBits := by
  have hpow := Nat.two_pow_pos f.fractionBits
  cases s with
  | zero =>
    simp only [Nat.pow_zero, Nat.one_mul] at hlow hhigh
    have hsig : f.Significand 0 (2 ^ f.fractionBits - 1) := Or.inl ⟨rfl, by omega⟩
    refine roundRatio_of_below hden hsig hpow hinf (Or.inl ?_) (by simpa using hhigh)
    simp only [Nat.pow_zero, Nat.one_mul]
    omega
  | succ s =>
    have hunit : 2 ^ (s + 1) * den = 2 * (2 ^ s * den) := by rw [Nat.pow_succ]; ac_rfl
    have hinside : 2 ^ f.fractionBits * (2 * (2 ^ s * den)) =
        2 * (2 ^ f.fractionBits * (2 ^ s * den)) := Nat.mul_left_comm _ _ _
    have houtside : 2 * 2 ^ f.fractionBits * (2 ^ s * den) =
        2 * (2 ^ f.fractionBits * (2 ^ s * den)) := Nat.mul_assoc _ _ _
    rw [hunit, hinside] at hlow hhigh
    rw [Nat.add_one_mul] at hinf ⊢
    have hsig : f.Significand s (2 * 2 ^ f.fractionBits - 1) :=
      Or.inr ⟨by omega, by rw [Nat.pow_succ]; omega⟩
    have hround : f.roundRatio num den = s * 2 ^ f.fractionBits + 2 * 2 ^ f.fractionBits :=
      roundRatio_of_below hden hsig (by omega) (by omega) (by rw [houtside]; omega)
        (by rw [houtside]; omega)
    rw [hround]
    omega

theorem roundRatio_of_ordinary (hsig : f.Significand s m) (hprev : f.Significand s (m - 1))
    (hm : 0 < m) (hinf : s * 2 ^ f.fractionBits + m < f.infinity) {inclusive : Bool}
    (h : (⟨2 * m, 1, 1, (s : Int) - f.shift - 1, inclusive⟩ : Interval).Holds num den)
    (hends : inclusive = true → m % 2 = 1 →
      2 * (num * 2 ^ f.shift) ≠ (2 * m - 1) * (2 ^ s * den) ∧
        2 * (num * 2 ^ f.shift) ≠ (2 * m + 1) * (2 ^ s * den)) :
    f.roundRatio num den = s * 2 ^ f.fractionBits + m := by
  have hdouble : num * 2 ^ (f.shift + 1) = 2 * (num * 2 ^ f.shift) := by
    rw [Nat.pow_succ]; ac_rfl
  have hlower : (2 * m - 1) * (2 ^ s * den) = 2 * (m * (2 ^ s * den)) - 2 ^ s * den := by
    rw [Nat.sub_mul, Nat.one_mul, Nat.mul_assoc]
  have hupper : (2 * m + 1) * (2 ^ s * den) = 2 * (m * (2 ^ s * den)) + 2 ^ s * den := by
    rw [Nat.add_mul, Nat.one_mul, Nat.mul_assoc]
  have hge : 2 ^ s * den ≤ m * (2 ^ s * den) := Nat.le_mul_of_pos_left _ hm
  rw [Interval.holds_iff (s := s) (c := 1) rfl] at h
  simp only [Nat.mul_assoc (2 * m + 1), Nat.mul_assoc (2 * m - 1), hdouble, hlower, hupper] at h
  simp only [hlower, hupper] at hends
  -- an included end is reached only by an even significand, or is missed
  have hinclusive : inclusive = true →
      2 * (num * 2 ^ f.shift) ≠ 2 * (m * (2 ^ s * den)) - 2 ^ s * den ∧
        2 * (num * 2 ^ f.shift) ≠ 2 * (m * (2 ^ s * den)) + 2 ^ s * den ∨ m % 2 = 0 := by
    intro hinc
    rcases Nat.mod_two_eq_zero_or_one m with heven | hodd
    · exact Or.inr heven
    · exact Or.inl (hends hinc hodd)
  by_cases habove : m * (2 ^ s * den) ≤ num * 2 ^ f.shift
  · refine roundRatio_of_above hden hsig hinf habove ?_
    cases inclusive
    · simp only [Bool.false_eq_true, if_false] at h
      omega
    · simp only [if_true] at h
      have := hinclusive rfl
      omega
  · refine roundRatio_of_below hden hprev hm hinf ?_ (by omega)
    cases inclusive
    · simp only [Bool.false_eq_true, if_false] at h
      omega
    · simp only [if_true] at h
      have := hinclusive rfl
      omega

theorem roundRatio_of_holds (hsig : f.Significand s m) (hm : 0 < m)
    (hinf : s * 2 ^ f.fractionBits + m < f.infinity)
    (h : (f.interval m ((s : Int) - f.shift) (decide (m < 2 ^ f.fractionBits))).Holds num den)
    (hends : m < 2 ^ f.fractionBits → m % 2 = 1 →
      2 * (num * 2 ^ f.shift) ≠ (2 * m - 1) * den ∧
        2 * (num * 2 ^ f.shift) ≠ (2 * m + 1) * den) :
    f.roundRatio num den = s * 2 ^ f.fractionBits + m := by
  unfold interval at h
  by_cases hsub : m < 2 ^ f.fractionBits
  · -- a subnormal significand: the binade is `0` and the interval's ends are included
    have hs : s = 0 := hsig.elim And.left (fun hn => absurd hn.1 (Nat.not_le.mpr hsub))
    subst hs
    simp only [hsub, decide_true, if_true] at h
    refine roundRatio_of_ordinary hden hsig (Or.inl ⟨rfl, by omega⟩) hm hinf h ?_
    intro _ hodd
    simpa only [Nat.pow_zero, Nat.one_mul] using hends hsub hodd
  · obtain ⟨hnorm, hbound⟩ : 2 ^ f.fractionBits ≤ m ∧ m < 2 ^ (f.fractionBits + 1) :=
      hsig.elim (fun hs => absurd hs.2 hsub) id
    simp only [hsub, decide_false, Bool.false_eq_true, if_false, Nat.pow_eq] at h
    by_cases hpow : m = 2 ^ f.fractionBits
    · -- a power of two: the interval reaches a quarter unit down and half a unit up
      subst hpow
      simp only [if_true] at h
      rw [Interval.holds_iff (s := s) (c := 2) rfl] at h
      dsimp only at h
      have hquad : num * 2 ^ (f.shift + 2) = 4 * (num * 2 ^ f.shift) := by
        rw [Nat.pow_add]
        show num * (2 ^ f.shift * 4) = 4 * (num * 2 ^ f.shift)
        ac_rfl
      have hlower : (4 * 2 ^ f.fractionBits - 1) * 2 ^ s * den =
          4 * (2 ^ f.fractionBits * (2 ^ s * den)) - 2 ^ s * den := by
        rw [Nat.mul_assoc, Nat.sub_mul, Nat.one_mul, Nat.mul_assoc]
      have hupper : (4 * 2 ^ f.fractionBits + 2) * 2 ^ s * den =
          4 * (2 ^ f.fractionBits * (2 ^ s * den)) + 2 * (2 ^ s * den) := by
        rw [Nat.mul_assoc, Nat.add_mul, Nat.mul_assoc]
      rw [hquad, hlower, hupper] at h
      have hunit : 2 ^ s * den ≤ 2 ^ f.fractionBits * (2 ^ s * den) :=
        Nat.le_mul_of_pos_left _ (Nat.two_pow_pos _)
      by_cases habove : 2 ^ f.fractionBits * (2 ^ s * den) ≤ num * 2 ^ f.shift
      · refine roundRatio_of_above hden hsig hinf habove ?_
        split at h
        · rename_i hinc
          simp only [decide_eq_true_eq] at hinc
          omega
        · omega
      · refine roundRatio_of_below_power hden hinf ?_ (by omega)
        split at h <;> omega
    · simp only [hpow, if_false] at h
      refine roundRatio_of_ordinary hden hsig (Or.inr ⟨by omega, by omega⟩) hm hinf h ?_
      intro hinc hodd
      simp only [decide_eq_true_eq] at hinc
      omega

end Sides

/-! ### Reading a pattern back -/

theorem fields_signed {y : Nat} (hy : y < 2 ^ (f.fractionBits + f.exponentBits)) (neg : Bool) :
    f.fields ((if neg then 2 ^ (f.fractionBits + f.exponentBits) else 0) + y) =
      ⟨neg, y / 2 ^ f.fractionBits, y % 2 ^ f.fractionBits⟩ := by
  have hexp : y / 2 ^ f.fractionBits < 2 ^ f.exponentBits := by
    rw [Nat.div_lt_iff_lt_mul (Nat.two_pow_pos _), ← Nat.pow_add, Nat.add_comm]
    exact hy
  simp only [fields, Nat.pow_eq, Nat.shiftRight_eq_div_pow]
  cases neg with
  | false => simp [Nat.testBit_lt_two_pow hy, Nat.mod_eq_of_lt hexp]
  | true =>
    simp only [if_true, Fields.mk.injEq]
    refine ⟨?_, ?_, ?_⟩
    · rw [Nat.testBit_two_pow_add_eq, Nat.testBit_lt_two_pow hy, Bool.not_false]
    · rw [Nat.pow_add, Nat.mul_add_div (Nat.two_pow_pos _), Nat.add_mod_left,
        Nat.mod_eq_of_lt hexp]
    · rw [Nat.pow_add, Nat.mul_add_mod]

theorem read_split (hf : 1 ≤ f.bias + f.fractionBits) (hsig : f.Significand s m)
    (hinf : s * 2 ^ f.fractionBits + m < f.infinity) (neg : Bool) :
    f.read ((if neg then 2 ^ (f.fractionBits + f.exponentBits) else 0) +
        (s * 2 ^ f.fractionBits + m)) =
      .finite neg m ((s : Int) - f.shift) (decide (m < 2 ^ f.fractionBits)) := by
  have hpow := Nat.two_pow_pos f.fractionBits
  have hinf' : s * 2 ^ f.fractionBits + m < (2 ^ f.exponentBits - 1) * 2 ^ f.fractionBits := by
    simpa only [infinity, topField, Nat.pow_eq] using hinf
  have hy : s * 2 ^ f.fractionBits + m < 2 ^ (f.fractionBits + f.exponentBits) := by
    refine Nat.lt_of_lt_of_le hinf' ?_
    rw [Nat.pow_add, Nat.mul_comm]
    exact Nat.mul_le_mul_left _ (Nat.sub_le _ _)
  have hfield : (s * 2 ^ f.fractionBits + m) / 2 ^ f.fractionBits < 2 ^ f.exponentBits - 1 :=
    (Nat.div_lt_iff_lt_mul hpow).mpr hinf'
  unfold read
  rw [fields_signed hy neg]
  simp only [topField, Nat.pow_eq, shift]
  rcases hsig with ⟨rfl, hsub⟩ | ⟨hlow, hhigh⟩
  · -- the exponent field is zero
    have hzero : (0 * 2 ^ f.fractionBits + m) / 2 ^ f.fractionBits = 0 := by
      rw [Nat.zero_mul, Nat.zero_add, Nat.div_eq_of_lt hsub]
    rw [hzero] at hfield ⊢
    simp only [Nat.zero_mul, Nat.zero_add, Nat.mod_eq_of_lt hsub, hsub, decide_true,
      Nat.ne_of_lt hfield, if_false, if_true, Reading.finite.injEq, true_and, and_true]
    omega
  · -- the exponent field is `s + 1` and the hidden bit is set
    have hone : m / 2 ^ f.fractionBits = 1 :=
      Nat.div_eq_of_lt_le (by omega) (by rw [Nat.pow_succ] at hhigh; omega)
    have hfield' : (s * 2 ^ f.fractionBits + m) / 2 ^ f.fractionBits = s + 1 := by
      rw [Nat.add_comm, Nat.add_mul_div_right _ _ hpow, hone, Nat.add_comm]
    have hfrac : (s * 2 ^ f.fractionBits + m) % 2 ^ f.fractionBits = m - 2 ^ f.fractionBits := by
      rw [Nat.add_comm, Nat.add_mul_mod_self_right, Nat.mod_eq_sub_mod hlow,
        Nat.mod_eq_of_lt (by rw [Nat.pow_succ] at hhigh; omega)]
    rw [hfield'] at hfield ⊢
    rw [hfrac]
    have hnot : ¬ m < 2 ^ f.fractionBits := Nat.not_lt.mpr hlow
    simp only [Nat.ne_of_lt hfield, Nat.succ_ne_zero, if_false, hnot, decide_false,
      Reading.finite.injEq, true_and, and_true]
    omega

theorem exists_split {y : Nat} (hy : 0 < y) :
    ∃ s m, f.Significand s m ∧ 0 < m ∧ y = s * 2 ^ f.fractionBits + m := by
  have hpow := Nat.two_pow_pos f.fractionBits
  by_cases hsub : y < 2 ^ f.fractionBits
  · exact ⟨0, y, Or.inl ⟨rfl, hsub⟩, hy, by omega⟩
  · refine ⟨y / 2 ^ f.fractionBits - 1, 2 ^ f.fractionBits + y % 2 ^ f.fractionBits,
      Or.inr ⟨by omega, ?_⟩, by omega, ?_⟩
    · rw [Nat.pow_succ]
      have := Nat.mod_lt y hpow
      omega
    · have hdiv := Nat.div_add_mod y (2 ^ f.fractionBits)
      have hpos : 1 ≤ y / 2 ^ f.fractionBits := (Nat.le_div_iff_mul_le hpow).mpr (by omega)
      rw [Nat.sub_one_mul, Nat.mul_comm]
      have : 2 ^ f.fractionBits ≤ 2 ^ f.fractionBits * (y / 2 ^ f.fractionBits) :=
        Nat.le_mul_of_pos_right _ hpos
      omega

/-- A decimal `num / 10 ^ j` with a numerator below `5 ^ (shift + 1)` is never an odd multiple
of half the least subnormal, where a tie between two subnormals falls: below that many fraction
digits its doubled numerator is even and the odd multiple is not, beyond them the numerator would
need the factor `5 ^ j`. -/
theorem decimal_ne_subnormal_end {num j o : Nat} (hnum : num < 5 ^ (f.shift + 1))
    (ho : o % 2 = 1) : 2 * (num * 2 ^ f.shift) ≠ o * 10 ^ j := by
  intro heq
  have hdouble : 2 * (num * 2 ^ f.shift) = num * 2 ^ (f.shift + 1) := by
    rw [Nat.pow_succ]; ac_rfl
  have hten : 10 ^ j = 5 ^ j * 2 ^ j := by rw [← Nat.mul_pow]
  rw [hdouble, hten, ← Nat.mul_assoc] at heq
  by_cases hj : j ≤ f.shift
  · -- the power of two on the left is higher: an even number equals an odd one
    obtain ⟨k, hk⟩ : ∃ k, f.shift + 1 = k + 1 + j := ⟨f.shift - j, by omega⟩
    rw [hk, Nat.pow_add, ← Nat.mul_assoc] at heq
    have hcancel := Nat.eq_of_mul_eq_mul_right (Nat.two_pow_pos j) heq
    have hfive : 5 ^ j % 2 = 1 := by rw [Nat.pow_mod]; simp
    have hodd : o * 5 ^ j % 2 = 1 := by rw [Nat.mul_mod, ho, hfive]
    rw [Nat.pow_succ, ← Nat.mul_assoc] at hcancel
    omega
  · -- the power of two on the right is higher: the numerator takes the factor `5 ^ j`
    obtain ⟨k, hk⟩ : ∃ k, j = k + (f.shift + 1) := ⟨j - (f.shift + 1), by omega⟩
    have hsplit : 2 ^ j = 2 ^ k * 2 ^ (f.shift + 1) := by rw [hk, Nat.pow_add]
    rw [hsplit, ← Nat.mul_assoc] at heq
    have hcancel := Nat.eq_of_mul_eq_mul_right (Nat.two_pow_pos _) heq
    have hbig : 5 ^ (f.shift + 1) ≤ o * 5 ^ j * 2 ^ k := by
      calc 5 ^ (f.shift + 1) ≤ 5 ^ j := Nat.pow_le_pow_right (by decide) (by omega)
        _ ≤ o * 5 ^ j := Nat.le_mul_of_pos_left _ (by omega)
        _ ≤ o * 5 ^ j * 2 ^ k := Nat.le_mul_of_pos_right _ (Nat.two_pow_pos k)
    omega

end Format

end Binary

end CStack
