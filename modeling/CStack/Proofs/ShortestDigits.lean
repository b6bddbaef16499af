import CStack.Proofs.NearestRounding

/-!
# The shortest digits lie in their interval

`Interval.shortest` starts at the decimal position `startExponent`, the least power of ten the
interval's upper end stays below, and tries grids of one digit, two digits, and so on below it;
at each it takes the value's truncation or the next grid point when one of them lies in the
interval. This module proves what the printer relies on:

* `startExponent` is that position: the upper end stays below `10 ^ k` and reaches `10 ^ (k - 1)`;
* every digit string a grid gives denotes a ratio inside the interval and fits its count of
  digits, so it is written without carrying into a new digit;
* when the interval is not too narrow for its width (`Interval.Wide`), the grid of `digitBudget`
  digits always has a point in it, so the search never falls back to no digits.
-/

namespace CStack.Decimal

/-- The ratio a digit string stands for, `value * 10 ^ (exponent - count)`. -/
def Digits.ratio (d : Digits) : Nat × Nat := scaleByTen (d.value, 1) (d.exponent - d.count)

/-! ### Counting digits -/

theorem lt_pow_digitCount (n : Nat) : n < 10 ^ digitCount n := by
  induction n using Nat.strongRecOn with
  | _ n ih =>
    rw [digitCount]
    split
    · omega
    · have := ih (n / 10) (by omega)
      rw [Nat.pow_succ]
      omega

theorem pow_digitCount_le {n : Nat} (hn : 0 < n) : 10 ^ (digitCount n - 1) ≤ n := by
  induction n using Nat.strongRecOn with
  | _ n ih =>
    rw [digitCount, if_neg (by omega), Nat.add_sub_cancel]
    by_cases hsmall : n / 10 = 0
    · rw [hsmall, digitCount, if_pos rfl]
      omega
    · have hrest := ih (n / 10) (by omega) (by omega)
      have hcount : 0 < digitCount (n / 10) := by
        rw [digitCount, if_neg hsmall]
        omega
      calc 10 ^ digitCount (n / 10) = 10 ^ (digitCount (n / 10) - 1) * 10 := by
            rw [← Nat.pow_succ]
            congr 1
            omega
        _ ≤ n / 10 * 10 := Nat.mul_le_mul_right _ hrest
        _ ≤ n := Nat.div_mul_le_self n 10

namespace Interval

variable {iv : Interval}

/-! ### Where digit generation starts -/

theorem fitsBelow_iff (k : Int) :
    iv.fitsBelow k = true ↔
      if iv.inclusive then iv.upper.1 * 10 ^ (-k).toNat < iv.upper.2 * 10 ^ k.toNat
      else iv.upper.1 * 10 ^ (-k).toNat ≤ iv.upper.2 * 10 ^ k.toNat := by
  unfold fitsBelow scaleByTen
  simp only [Nat.pow_eq, Int.neg_neg]
  split <;> simp

theorem upper_snd_pos : 0 < iv.upper.2 := by
  simp only [upper, binaryRatio, Nat.pow_eq]
  exact Nat.two_pow_pos _

theorem startExponent_spec (hpos : 0 < iv.upper.1) :
    iv.fitsBelow iv.startExponent = true ∧
      iv.upper.2 * 10 ^ (iv.startExponent - 1).toNat ≤
        iv.upper.1 * 10 ^ (1 - iv.startExponent).toNat := by
  have hden : 0 < iv.upper.2 := upper_snd_pos
  unfold startExponent
  dsimp only
  split
  · -- the upper end is at least one: `l` digits before the point
    rename_i hge
    have hquot : 0 < iv.upper.1 / iv.upper.2 := Nat.div_pos hge hden
    have hbelow : iv.upper.1 < 10 ^ digitCount (iv.upper.1 / iv.upper.2) * iv.upper.2 :=
      (Nat.div_lt_iff_lt_mul hden).mp (lt_pow_digitCount _)
    have habove : 10 ^ (digitCount (iv.upper.1 / iv.upper.2) - 1) * iv.upper.2 ≤ iv.upper.1 :=
      (Nat.le_div_iff_mul_le hden).mp (pow_digitCount_le hquot)
    have hcount : 0 < digitCount (iv.upper.1 / iv.upper.2) := by
      rw [digitCount, if_neg (by omega)]
      omega
    generalize digitCount (iv.upper.1 / iv.upper.2) = l at hbelow habove hcount ⊢
    split
    · -- the upper end is exactly `10 ^ (l - 1)`, excluded
      rename_i hfit
      refine ⟨hfit, ?_⟩
      have e₁ : ((l : Int) - 1 - 1).toNat = l - 2 := by omega
      have e₂ : (1 - ((l : Int) - 1)).toNat = 2 - l := by omega
      rw [e₁, e₂]
      by_cases hl : l = 1
      · subst hl
        simp only [Nat.reduceSub, Nat.pow_zero, Nat.mul_one, Nat.pow_one]
        omega
      · rw [show 2 - l = 0 by omega, Nat.pow_zero, Nat.mul_one]
        have hmono : 10 ^ (l - 2) ≤ 10 ^ (l - 1) := Nat.pow_le_pow_right (by decide) (by omega)
        calc iv.upper.2 * 10 ^ (l - 2) ≤ iv.upper.2 * 10 ^ (l - 1) := Nat.mul_le_mul_left _ hmono
          _ ≤ iv.upper.1 := by rw [Nat.mul_comm]; exact habove
    · refine ⟨(fitsBelow_iff _).mpr ?_, ?_⟩
      · have e₁ : (-(l : Int)).toNat = 0 := by omega
        have e₂ : (l : Int).toNat = l := by omega
        rw [e₁, e₂, Nat.pow_zero, Nat.mul_one, Nat.mul_comm iv.upper.2]
        split <;> omega
      · have e₁ : ((l : Int) - 1).toNat = l - 1 := by omega
        have e₂ : (1 - (l : Int)).toNat = 0 := by omega
        rw [e₁, e₂, Nat.pow_zero, Nat.mul_one, Nat.mul_comm]
        exact habove
  · -- the upper end is below one: `j` counts the zeros after the point, plus one
    rename_i hlt
    have hquot : 0 < iv.upper.2 / iv.upper.1 := Nat.div_pos (by omega) hpos
    have hbelow : iv.upper.2 < 10 ^ digitCount (iv.upper.2 / iv.upper.1) * iv.upper.1 :=
      (Nat.div_lt_iff_lt_mul hpos).mp (lt_pow_digitCount _)
    have habove : 10 ^ (digitCount (iv.upper.2 / iv.upper.1) - 1) * iv.upper.1 ≤ iv.upper.2 :=
      (Nat.le_div_iff_mul_le hpos).mp (pow_digitCount_le hquot)
    have hcount : 0 < digitCount (iv.upper.2 / iv.upper.1) := by
      rw [digitCount, if_neg (by omega)]
      omega
    generalize digitCount (iv.upper.2 / iv.upper.1) = j at hbelow habove hcount ⊢
    split
    · rename_i hfit
      refine ⟨hfit, ?_⟩
      have e₁ : (1 - (j : Int) - 1).toNat = 0 := by omega
      have e₂ : (1 - (1 - (j : Int))).toNat = j := by omega
      rw [e₁, e₂, Nat.pow_zero, Nat.mul_one, Nat.mul_comm iv.upper.1]
      omega
    · rename_i hfit
      rw [fitsBelow_iff] at hfit
      have e₀ : (-(1 - (j : Int))).toNat = j - 1 := by omega
      have e₀' : (1 - (j : Int)).toNat = 0 := by omega
      rw [e₀, e₀', Nat.pow_zero, Nat.mul_one] at hfit
      refine ⟨(fitsBelow_iff _).mpr ?_, ?_⟩
      · -- one position higher the upper end is strictly below
        have hstrict : iv.upper.1 * 10 ^ (-(2 - (j : Int))).toNat <
            iv.upper.2 * 10 ^ (2 - (j : Int)).toNat := by
          by_cases hj : j = 1
          · subst hj
            simp only [show (-(2 - ((1 : Nat) : Int))).toNat = 0 by omega,
              show (2 - ((1 : Nat) : Int)).toNat = 1 by omega, Nat.pow_zero, Nat.pow_one]
            omega
          · have e₁ : (-(2 - (j : Int))).toNat = j - 2 := by omega
            have e₂ : (2 - (j : Int)).toNat = 0 := by omega
            rw [e₁, e₂, Nat.pow_zero, Nat.mul_one]
            have hstep : 10 ^ (j - 1) = 10 ^ (j - 2) * 10 := by
              rw [← Nat.pow_succ]
              congr 1
              omega
            have habove' : iv.upper.1 * 10 ^ (j - 2) * 10 ≤ iv.upper.2 := by
              calc iv.upper.1 * 10 ^ (j - 2) * 10 = 10 ^ (j - 1) * iv.upper.1 := by
                    rw [hstep]; ac_rfl
                _ ≤ iv.upper.2 := habove
            have hx : 0 < iv.upper.1 * 10 ^ (j - 2) := Nat.mul_pos hpos (Nat.pow_pos (by decide))
            omega
        split
        · exact hstrict
        · exact Nat.le_of_lt hstrict
      · have e₁ : (2 - (j : Int) - 1).toNat = 0 := by omega
        have e₂ : (1 - (2 - (j : Int))).toNat = j - 1 := by omega
        rw [e₁, e₂, Nat.pow_zero, Nat.mul_one]
        split at hfit <;> omega

/-! ### Each grid's digits -/

theorem holds_grid {V c : Nat} {K t : Int} (ht : K - c = -t) :
    iv.Holds (scaleByTen (V, 1) (K - c)).1 (scaleByTen (V, 1) (K - c)).2 ↔
      if iv.inclusive then
        (iv.mant - iv.minus) * 2 ^ iv.exp.toNat * 10 ^ t.toNat ≤
            V * (2 ^ (-iv.exp).toNat * 10 ^ (-t).toNat) ∧
          V * (2 ^ (-iv.exp).toNat * 10 ^ (-t).toNat) ≤
            (iv.mant + iv.plus) * 2 ^ iv.exp.toNat * 10 ^ t.toNat
      else
        (iv.mant - iv.minus) * 2 ^ iv.exp.toNat * 10 ^ t.toNat <
            V * (2 ^ (-iv.exp).toNat * 10 ^ (-t).toNat) ∧
          V * (2 ^ (-iv.exp).toNat * 10 ^ (-t).toNat) <
            (iv.mant + iv.plus) * 2 ^ iv.exp.toNat * 10 ^ t.toNat := by
  have hnum : V * 10 ^ (-t).toNat * 2 ^ (-iv.exp).toNat =
      V * (2 ^ (-iv.exp).toNat * 10 ^ (-t).toNat) := by ac_rfl
  unfold Holds scaleByTen
  simp only [Nat.pow_eq, ht, Int.neg_neg, Nat.one_mul, hnum]

theorem value_lt_grid {k : Int} {n : Nat} (hfit : iv.fitsBelow k = true) (hplus : 0 < iv.plus) :
    iv.mant * 2 ^ iv.exp.toNat * 10 ^ ((n : Int) - k).toNat <
      10 ^ n * (2 ^ (-iv.exp).toNat * 10 ^ (-((n : Int) - k)).toNat) := by
  have hfit' : iv.upper.1 * 10 ^ (-k).toNat ≤ iv.upper.2 * 10 ^ k.toNat := by
    rw [fitsBelow_iff] at hfit
    split at hfit
    · exact Nat.le_of_lt hfit
    · exact hfit
  have hexp : (-k).toNat + (n + (-((n : Int) - k)).toNat) = ((n : Int) - k).toNat + k.toNat := by
    omega
  have hshift := (scaled_le_iff (d := 1) (by decide : 0 < 10) hexp).mp (by simpa using hfit')
  simp only [Nat.mul_one, upper, binaryRatio, Nat.pow_eq] at hshift
  have hstrict : iv.mant * 2 ^ iv.exp.toNat * 10 ^ ((n : Int) - k).toNat <
      (iv.mant + iv.plus) * 2 ^ iv.exp.toNat * 10 ^ ((n : Int) - k).toNat := by
    apply Nat.mul_lt_mul_of_pos_right _ (Nat.pow_pos (by decide))
    exact Nat.mul_lt_mul_of_pos_right (by omega) (Nat.two_pow_pos _)
  calc iv.mant * 2 ^ iv.exp.toNat * 10 ^ ((n : Int) - k).toNat
      < (iv.mant + iv.plus) * 2 ^ iv.exp.toNat * 10 ^ ((n : Int) - k).toNat := hstrict
    _ ≤ 2 ^ (-iv.exp).toNat * 10 ^ (n + (-((n : Int) - k)).toNat) := hshift
    _ = 10 ^ n * (2 ^ (-iv.exp).toNat * 10 ^ (-((n : Int) - k)).toNat) := by
      rw [Nat.pow_add]; ac_rfl

theorem candidate_cases {k : Int} {n : Nat} {D : Digits} (h : iv.candidate k n = some D) :
    ∃ lower value upper den : Nat,
      lower = (iv.mant - iv.minus) * 2 ^ iv.exp.toNat * 10 ^ ((n : Int) - k).toNat ∧
      value = iv.mant * 2 ^ iv.exp.toNat * 10 ^ ((n : Int) - k).toNat ∧
      upper = (iv.mant + iv.plus) * 2 ^ iv.exp.toNat * 10 ^ ((n : Int) - k).toNat ∧
      den = 2 ^ (-iv.exp).toNat * 10 ^ (-((n : Int) - k)).toNat ∧
      (((if iv.inclusive then (value / den + 1) * den ≤ upper
          else (value / den + 1) * den < upper) ∧
          (D = ⟨value / den + 1, n, k⟩ ∧ value / den + 1 ≠ 10 ^ n ∨
            D = ⟨10 ^ n, n + 1, k + 1⟩ ∧ value / den + 1 = 10 ^ n)) ∨
        ((if iv.inclusive then lower ≤ value / den * den else lower < value / den * den) ∧
          D = ⟨value / den, n, k⟩)) := by
  refine ⟨_, _, _, _, rfl, rfl, rfl, rfl, ?_⟩
  unfold candidate at h
  simp only [scaleByTen, binaryRatio, upper] at h
  simp only [← Nat.pow_eq]
  cases hinc : iv.inclusive <;> simp only [hinc, if_true, Bool.false_eq_true, if_false] at h ⊢
  all_goals
    split at h
    · rename_i hup
      simp only [Bool.and_eq_true, decide_eq_true_eq] at hup
      refine Or.inl ⟨hup.1, ?_⟩
      by_cases hcarry : iv.mant * Nat.pow 2 iv.exp.toNat * Nat.pow 10 ((n : Int) - k).toNat /
          (Nat.pow 2 (-iv.exp).toNat * Nat.pow 10 (-((n : Int) - k)).toNat) + 1 = Nat.pow 10 n
      · simp only [hcarry, if_true, Option.some.injEq] at h
        exact Or.inr ⟨h.symm, hcarry⟩
      · simp only [hcarry, if_false, Option.some.injEq] at h
        exact Or.inl ⟨h.symm, hcarry⟩
    · split at h
      · exact Or.inr ⟨‹_›, (Option.some.inj h).symm⟩
      · cases h

theorem candidate_sound {k : Int} {n : Nat} {D : Digits} (hfit : iv.fitsBelow k = true)
    (hplus : 0 < iv.plus) (h : iv.candidate k n = some D) :
    iv.Holds D.ratio.1 D.ratio.2 ∧ D.value < 10 ^ D.count ∧ n ≤ D.count ∧ D.count ≤ n + 1 := by
  have hgrid := value_lt_grid (n := n) hfit hplus
  obtain ⟨lower, value, upper, den, hlower, hvalue, hupper, hden, hcases⟩ := candidate_cases h
  rw [← hvalue, ← hden] at hgrid
  have hden_pos : 0 < den := hden ▸ Nat.mul_pos (Nat.two_pow_pos _) (Nat.pow_pos (by decide))
  -- the value lies between its truncation and the next grid point, and inside the interval
  have hfloor : value / den * den ≤ value := Nat.div_mul_le_self _ _
  have hnext : value < (value / den + 1) * den := by
    rw [Nat.add_one_mul]
    have hsplit := Nat.div_add_mod value den
    have hrem := Nat.mod_lt value hden_pos
    rw [Nat.mul_comm] at hsplit
    omega
  have hlow : lower ≤ value := by
    rw [hlower, hvalue]
    exact Nat.mul_le_mul_right _ (Nat.mul_le_mul_right _ (Nat.sub_le _ _))
  have hhigh : value < upper := by
    rw [hvalue, hupper]
    apply Nat.mul_lt_mul_of_pos_right _ (Nat.pow_pos (by decide))
    exact Nat.mul_lt_mul_of_pos_right (by omega) (Nat.two_pow_pos _)
  have hdigits : value / den < 10 ^ n := (Nat.div_lt_iff_lt_mul hden_pos).mpr hgrid
  have hholds : ∀ {V c : Nat} {K : Int}, K - c = k - n →
      (iv.Holds (scaleByTen (V, 1) (K - c)).1 (scaleByTen (V, 1) (K - c)).2 ↔
        if iv.inclusive then lower ≤ V * den ∧ V * den ≤ upper
        else lower < V * den ∧ V * den < upper) := by
    intro V c K hK
    rw [holds_grid (t := (n : Int) - k) (by omega), ← hlower, ← hupper, ← hden]
  rcases hcases with ⟨hup, ⟨rfl, hne⟩ | ⟨rfl, heq⟩⟩ | ⟨hdown, rfl⟩
  · -- the next grid point, below `10 ^ n`
    refine ⟨(hholds (by simp)).mpr ?_, Nat.lt_of_le_of_ne (Nat.succ_le_of_lt hdigits) hne,
      by simp, by simp⟩
    dsimp only
    cases hinc : iv.inclusive <;>
      simp only [hinc, if_true, Bool.false_eq_true, if_false] at hup ⊢ <;> omega
  · -- the next grid point is `10 ^ n`, written with one digit more
    refine ⟨(hholds (by show k + 1 - ((n + 1 : Nat) : Int) = k - n; omega)).mpr ?_,
      Nat.pow_lt_pow_right (by decide) (by simp), by simp, by simp⟩
    dsimp only
    rw [← heq]
    cases hinc : iv.inclusive <;>
      simp only [hinc, if_true, Bool.false_eq_true, if_false] at hup ⊢ <;> omega
  · -- the truncation
    refine ⟨(hholds (by simp)).mpr ?_, hdigits, by simp, by simp⟩
    dsimp only
    cases hinc : iv.inclusive <;>
      simp only [hinc, if_true, Bool.false_eq_true, if_false] at hdown ⊢ <;> omega

/-! ### The last grid has a point in a wide interval -/

theorem unit_lt_width {k : Int} {n : Nat} (hn : 1 ≤ n)
    (hk : iv.upper.2 * 10 ^ (k - 1).toNat ≤ iv.upper.1 * 10 ^ (1 - k).toNat)
    (hminus : iv.minus ≤ iv.mant) (hplus : 0 < iv.plus)
    (hwidth : iv.mant + iv.plus ≤ iv.minus * 10 ^ (n - 1)) :
    (iv.mant - iv.minus) * 2 ^ iv.exp.toNat * 10 ^ ((n : Int) - k).toNat +
        2 ^ (-iv.exp).toNat * 10 ^ (-((n : Int) - k)).toNat <
      (iv.mant + iv.plus) * 2 ^ iv.exp.toNat * 10 ^ ((n : Int) - k).toNat := by
  have hexp : (k - 1).toNat + ((n : Int) - k).toNat =
      (n - 1 + (-((n : Int) - k)).toNat) + (1 - k).toNat := by omega
  have hshift := (scaled_le_iff (d := 1) (by decide : 0 < 10) hexp).mp (by simpa using hk)
  simp only [Nat.mul_one, upper, binaryRatio, Nat.pow_eq, Nat.pow_add] at hshift
  have hscale : 0 < 2 ^ iv.exp.toNat * 10 ^ ((n : Int) - k).toNat :=
    Nat.mul_pos (Nat.two_pow_pos _) (Nat.pow_pos (by decide))
  have hunit : 2 ^ (-iv.exp).toNat * 10 ^ (-((n : Int) - k)).toNat * 10 ^ (n - 1) ≤
      (iv.mant + iv.plus) * (2 ^ iv.exp.toNat * 10 ^ ((n : Int) - k).toNat) := by
    rw [← Nat.mul_assoc]
    calc _ = 2 ^ (-iv.exp).toNat * (10 ^ (n - 1) * 10 ^ (-((n : Int) - k)).toNat) := by ac_rfl
      _ ≤ _ := hshift
  simp only [Nat.mul_assoc (iv.mant - iv.minus), Nat.mul_assoc (iv.mant + iv.plus)]
  generalize 2 ^ iv.exp.toNat * 10 ^ ((n : Int) - k).toNat = scale at hscale hunit ⊢
  generalize 2 ^ (-iv.exp).toNat * 10 ^ (-((n : Int) - k)).toNat = unit at hunit ⊢
  have hten : 0 < 10 ^ (n - 1) := Nat.pow_pos (by decide)
  generalize 10 ^ (n - 1) = ten at hunit hwidth hten
  have hlt : unit * ten < (iv.minus + iv.plus) * scale * ten :=
    calc unit * ten ≤ (iv.mant + iv.plus) * scale := hunit
      _ ≤ iv.minus * ten * scale := Nat.mul_le_mul_right _ hwidth
      _ = iv.minus * scale * ten := by ac_rfl
      _ < (iv.minus + iv.plus) * scale * ten :=
        Nat.mul_lt_mul_of_pos_right (Nat.mul_lt_mul_of_pos_right (by omega) hscale) hten
  have hsplit : (iv.mant + iv.plus) * scale =
      (iv.mant - iv.minus) * scale + (iv.minus + iv.plus) * scale := by
    rw [← Nat.add_mul]
    congr 1
    omega
  have := Nat.lt_of_mul_lt_mul_right hlt
  omega

theorem candidate_ne_none {k : Int} {n : Nat} (hn : 1 ≤ n)
    (hk : iv.upper.2 * 10 ^ (k - 1).toNat ≤ iv.upper.1 * 10 ^ (1 - k).toNat)
    (hminus : iv.minus ≤ iv.mant) (hplus : 0 < iv.plus)
    (hwidth : iv.mant + iv.plus ≤ iv.minus * 10 ^ (n - 1)) :
    iv.candidate k n ≠ none := by
  have hwide := unit_lt_width hn hk hminus hplus hwidth
  simp only [← Nat.pow_eq] at hwide
  intro h
  unfold candidate at h
  simp only [scaleByTen, binaryRatio, upper] at h
  cases hinc : iv.inclusive <;> simp only [hinc, if_true, Bool.false_eq_true, if_false] at h
  all_goals
    split at h
    · by_cases hcarry : iv.mant * Nat.pow 2 iv.exp.toNat * Nat.pow 10 ((n : Int) - k).toNat /
          (Nat.pow 2 (-iv.exp).toNat * Nat.pow 10 (-((n : Int) - k)).toNat) + 1 = Nat.pow 10 n
      · simp only [hcarry, if_true] at h
        cases h
      · simp only [hcarry, if_false] at h
        cases h
    · split at h
      · cases h
      · rename_i hnup hndown
        simp only [Bool.and_eq_true, decide_eq_true_eq, Bool.or_eq_true, Bool.not_eq_true',
          decide_eq_false_iff_not, not_and] at hnup hndown
        -- the truncation is below the interval, so the next grid point, one unit up, is
        -- inside it
        refine absurd (Or.inl hndown) (hnup ?_)
        generalize iv.mant * Nat.pow 2 iv.exp.toNat * Nat.pow 10 ((n : Int) - k).toNat /
          (Nat.pow 2 (-iv.exp).toNat * Nat.pow 10 (-((n : Int) - k)).toNat) = d at hndown ⊢
        rw [Nat.add_one_mul]
        omega

/-! ### The search always succeeds -/

/-- An interval that is wide for its size: its upper side is not empty, its lower end is not
below zero, and its width is at least a `10 ^ (digitBudget - 1)`-th of its upper end. -/
structure Wide (iv : Interval) : Prop where
  plus_pos : 0 < iv.plus
  minus_le : iv.minus ≤ iv.mant
  width : iv.mant + iv.plus ≤ iv.minus * 10 ^ (digitBudget - 1)

theorem shortest_sound (hw : iv.Wide) :
    iv.Holds iv.shortest.ratio.1 iv.shortest.ratio.2 ∧
      iv.shortest.value < 10 ^ iv.shortest.count ∧ 0 < iv.shortest.count ∧
        iv.shortest.count ≤ digitBudget + 1 := by
  have hpos : 0 < iv.upper.1 := by
    simp only [upper, binaryRatio, Nat.pow_eq]
    exact Nat.mul_pos (by have := hw.plus_pos; omega) (Nat.two_pow_pos _)
  obtain ⟨hfit, hreach⟩ := startExponent_spec hpos
  -- the last grid of the budget always has a point in the interval, so the search finds one
  have hlast : iv.candidate iv.startExponent digitBudget ≠ none :=
    candidate_ne_none (by decide) hreach hw.minus_le hw.plus_pos hw.width
  have hfound : ∃ D, (List.range' 1 digitBudget).findSome? (iv.candidate iv.startExponent) =
      some D := by
    cases hsearch : (List.range' 1 digitBudget).findSome? (iv.candidate iv.startExponent) with
    | none =>
      rw [List.findSome?_eq_none_iff] at hsearch
      exact absurd (hsearch digitBudget (List.mem_range'_1.mpr (by decide))) hlast
    | some D => exact ⟨D, rfl⟩
  obtain ⟨D, hD⟩ := hfound
  obtain ⟨n, hn, hcand⟩ := List.exists_of_findSome?_eq_some hD
  have hshortest : iv.shortest = D := by
    unfold shortest
    dsimp only
    rw [hD]
    rfl
  rw [hshortest]
  obtain ⟨hholds, hvalue, hlow, hhigh⟩ := candidate_sound hfit hw.plus_pos hcand
  have hn' := List.mem_range'_1.mp hn
  exact ⟨hholds, hvalue, by omega, by omega⟩

end Interval

end CStack.Decimal
