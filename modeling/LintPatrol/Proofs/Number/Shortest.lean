import LintPatrol.Number.Shortest
import LintPatrol.Proofs.Number.Word

/-!
# LintPatrol.Proofs.Number.Shortest

The digits of a number read back as the number.  What reads back is said of
rational numbers (`Interval.Holds`): from the middle between the number and the
one before to the middle between it and the next, the middles themselves if the
number is even.  The search for digits ends in that interval on each grid
where there is a hit, and else on a grid that is fine enough for the
neighbour below the number to lie in it.

## Main statements

* `nearest_of_holds`: the interval is one of fractions to which the number is the nearest.
* `digits_holds`: the digits lie in the interval.
* `ofDecimal_of_holds`: the number nearest to a decimal that reads back is the number.
-/

namespace LintPatrol.Number.Shortest

open Binary64

/-! ## The interval -/

/-- The number reads back as `m · 2 ^ q`. -/
structure Interval.Holds (i : Interval) (x : ℚ) : Prop where
  low : 4 * i.m - i.below ≤ 4 * (x / 2 ^ i.q)
  high : 4 * (x / 2 ^ i.q) ≤ 4 * i.m + 2
  even : 4 * (x / 2 ^ i.q) = 4 * i.m - i.below ∨ 4 * (x / 2 ^ i.q) = 4 * i.m + 2 → i.m % 2 = 0

variable {i : Interval} {num den : Nat}

theorem Interval.below_le (i : Interval) : i.below ≤ 2 := by
  unfold below
  split <;> decide

theorem Interval.one_le_below (i : Interval) : 1 ≤ i.below := by
  unfold below
  split <;> decide

/-- What is found to be in an interval is. -/
theorem Interval.holds_of_contains (hm : 0 < i.m) (hden : 0 < den)
    (h : i.contains num den = true) : i.Holds ((num : ℚ) / den) := by
  obtain ⟨hpos, heq⟩ := unscale_eq (4 * num) hden i.q
  have hbelow : i.below ≤ 4 * i.m := by have := i.below_le; omega
  have hscaled : 4 * ((num : ℚ) / den / 2 ^ i.q) =
      ((unscale (4 * num) den i.q).1 : ℚ) / (unscale (4 * num) den i.q).2 := by
    rw [heq]
    push_cast
    ring
  simp only [contains] at h
  generalize (unscale (4 * num) den i.q).1 = n at h hscaled
  generalize (unscale (4 * num) den i.q).2 = d at h hscaled hpos
  have hpos' : (0 : ℚ) < d := by exact_mod_cast hpos
  have hcast : ((4 * i.m - i.below : Nat) : ℚ) = 4 * i.m - i.below := by
    rw [Nat.cast_sub hbelow]
    push_cast
    rfl
  split at h
  · next heven =>
    rw [Bool.and_eq_true, decide_eq_true_eq, decide_eq_true_eq] at h
    obtain ⟨hlow, hhigh⟩ := h
    refine ⟨?_, ?_, fun _ => heven⟩
    · rw [hscaled, le_div_iff₀ hpos', ← hcast]
      exact_mod_cast hlow
    · rw [hscaled, div_le_iff₀ hpos']
      exact_mod_cast hhigh
  · rw [Bool.and_eq_true, decide_eq_true_eq, decide_eq_true_eq] at h
    obtain ⟨hlow, hhigh⟩ := h
    have hlow' : 4 * (i.m : ℚ) - i.below < n / d := by
      rw [lt_div_iff₀ hpos', ← hcast]
      exact_mod_cast hlow
    have hhigh' : (n : ℚ) / d < 4 * i.m + 2 := by
      rw [div_lt_iff₀ hpos']
      exact_mod_cast hhigh
    rw [← hscaled] at hlow' hhigh'
    refine ⟨hlow'.le, hhigh'.le, ?_⟩
    rintro (h | h) <;> linarith

/-- What lies in the interval is of the exponent of the number, or just below it. -/
theorem Interval.Holds.below_lt {x : ℚ} (h : i.Holds x) (hi : Canonical i.m i.q) :
    x < 2 ^ 53 * 2 ^ i.q := by
  have hpow : (0 : ℚ) < 2 ^ i.q := by positivity
  rw [← div_lt_iff₀ hpow]
  have hm : (i.m : ℚ) + 1 ≤ 2 ^ 53 := by exact_mod_cast hi.below
  linarith [h.high]

/-- The word of a power of two, from either side. -/
theorem pack_pred {q : Int} (h : minExponent < q) :
    pack (2 ^ 53) (q - 1) = pack (twoTo 52) q := by
  simp only [pack, minExponent, show twoTo 52 = 2 ^ 52 from rfl] at h ⊢
  omega

/-- Just below a power of two, where the numbers lie closer, it is the nearest one. -/
theorem nearest_below_power {q : Int} (hden : 0 < den) (hq : minExponent < q)
    (hlow : 2 ^ 52 - 1 / 4 ≤ (num : ℚ) / den / 2 ^ q) (hless : (num : ℚ) / den / 2 ^ q < 2 ^ 52) :
    nearest num den = min infinityBits (pack (twoTo 52) q) := by
  have hpow : (0 : ℚ) < 2 ^ q := by positivity
  have hhalf : (2 : ℚ) ^ (q - 1) = 2 ^ q / 2 := by
    rw [zpow_sub_one₀ two_ne_zero, div_eq_mul_inv]
  have hexponent : IsExponent ((num : ℚ) / den) (q - 1) := by
    have hlow' := (le_div_iff₀ hpow).mp hlow
    have hless' := (div_lt_iff₀ hpow).mp hless
    exact ⟨by omega, by rw [hhalf]; linarith, .inr (by rw [hhalf]; linarith)⟩
  have hdouble : (num : ℚ) / den / 2 ^ (q - 1) = 2 * ((num : ℚ) / den / 2 ^ q) := by
    rw [hhalf]
    field_simp
  have hrounds : RoundsTo ((num : ℚ) / den / 2 ^ (q - 1)) (2 ^ 53) := by
    refine ⟨?_, ?_, fun _ => rfl⟩
    · rw [hdouble]; push_cast; linarith
    · rw [hdouble]; push_cast; linarith
  rw [nearest_eq hden hexponent hrounds, pack_pred hq]

/-- **The number is the nearest one to each fraction of its interval.** -/
theorem nearest_of_holds (hi : Canonical i.m i.q) (hden : 0 < den)
    (h : i.Holds ((num : ℚ) / den)) : nearest num den = pack i.m i.q := by
  have hpow : (0 : ℚ) < 2 ^ i.q := by positivity
  have hlt := h.below_lt hi
  have hpack := min_eq_right hi.pack_lt.le
  obtain ⟨m, q⟩ := i
  obtain ⟨hlow, hhigh, heven⟩ := h
  simp only at *
  by_cases hstep : m = twoTo 52 ∧ q ≠ minExponent
  · have hbelow : (Interval.below ⟨m, q⟩ : ℚ) = 1 := by simp [Interval.below, hstep]
    obtain ⟨rfl, hmin⟩ := hstep
    have hcast : ((twoTo 52 : Nat) : ℚ) = 2 ^ 52 := cast_twoTo 52
    rw [hbelow, hcast] at hlow
    rw [hcast] at hhigh
    by_cases hge : 2 ^ 52 * 2 ^ q ≤ (num : ℚ) / den
    · have hexponent : IsExponent ((num : ℚ) / den) q := ⟨hi.least, hlt, .inr hge⟩
      rw [← le_div_iff₀ hpow] at hge
      have hrounds : RoundsTo ((num : ℚ) / den / 2 ^ q) (twoTo 52) :=
        ⟨by rw [hcast]; linarith, by rw [hcast]; linarith, fun _ => rfl⟩
      rw [nearest_eq hden hexponent hrounds, hpack]
    · have hless := (div_lt_iff₀ hpow).mpr (not_le.mp hge)
      have hq : minExponent < q := by have := hi.least; omega
      rw [nearest_below_power hden hq (by linarith) hless, hpack]
  · have hbelow : (Interval.below ⟨m, q⟩ : ℚ) = 2 := by simp [Interval.below, hstep]
    rw [hbelow] at hlow heven
    have hexponent : IsExponent ((num : ℚ) / den) q := by
      refine ⟨hi.least, hlt, ?_⟩
      rcases hi.above with hmin | hm
      · exact .inl hmin
      · by_cases hmin : q = minExponent
        · exact .inl hmin
        · have hne : m ≠ 2 ^ 52 := fun h => hstep ⟨h, hmin⟩
          have hm' : (2 ^ 52 + 1 : ℚ) ≤ m := by exact_mod_cast (show 2 ^ 52 + 1 ≤ m by omega)
          refine .inr ((le_div_iff₀ hpow).mp ?_)
          linarith
    have hrounds : RoundsTo ((num : ℚ) / den / 2 ^ q) m := by
      refine ⟨by linarith, by linarith, ?_⟩
      rintro (h | h)
      · exact heven (.inl (by linarith))
      · exact heven (.inr (by linarith))
    rw [nearest_eq hden hexponent hrounds, hpack]

/-! ## The grids -/

/-- A decimal number as a quotient of two whole ones. -/
theorem decimal_eq (d : Nat) (e : Int) :
    0 < (decimal d e).2 ∧ ((decimal d e).1 : ℚ) / (decimal d e).2 = d * 10 ^ e := by
  unfold decimal
  split
  · next he => simp [cast_tenTo, zpow_of_nonneg 10 he]
  · next he => simp [cast_tenTo, zpow_of_neg 10 he, tenTo_pos, div_eq_mul_inv]

/-- The neighbour below. -/
theorem neighbours_le (num : Nat) {den : Nat} (hden : 0 < den) (e : Int) :
    ((neighbours num den e).1 : ℚ) * 10 ^ e ≤ (num : ℚ) / den ∧
      (num : ℚ) / den < ((neighbours num den e).1 + 1) * 10 ^ e := by
  have hpow : (0 : ℚ) < 10 ^ e := by positivity
  obtain ⟨n, d, hd, heq, hfloor⟩ : ∃ n d : Nat, 0 < d ∧
      (n : ℚ) / d = (num : ℚ) / den / 10 ^ e ∧ (neighbours num den e).1 = n / d := by
    unfold neighbours
    by_cases he : 0 ≤ e
    · refine ⟨num, den * tenTo e.toNat, Nat.mul_pos hden (tenTo_pos _), ?_, by simp [he]⟩
      simp [cast_tenTo, zpow_of_nonneg 10 he, div_div]
    · refine ⟨num * tenTo (-e).toNat, den, hden, ?_, by simp [he]⟩
      simp only [Nat.cast_mul, cast_tenTo, zpow_of_neg 10 he, div_inv_eq_mul]
      ring
  have hd' : (0 : ℚ) < d := by exact_mod_cast hd
  rw [hfloor, ← le_div_iff₀ hpow, ← div_lt_iff₀ hpow, ← heq, le_div_iff₀ hd', div_lt_iff₀ hd']
  constructor
  · exact_mod_cast Nat.div_mul_le_self n d
  · have hlt : n < (n / d + 1) * d := by
      rw [Nat.succ_mul]
      exact Nat.lt_div_mul_add hd
    exact_mod_cast hlt

/-- What is hit reads back. -/
theorem holds_of_hit? {e : Int} {d : Nat} (hm : 0 < i.m) (h : hit? i e = some d) :
    i.Holds (d * 10 ^ e) := by
  obtain ⟨hden, heq⟩ := decimal_eq d e
  rw [← heq]
  refine Interval.holds_of_contains hm hden ?_
  simp only [hit?] at h
  generalize (neighbours (fraction i.m i.q).1 (fraction i.m i.q).2 e).1 = n at h
  split at h
  · next hlow hhigh =>
    obtain rfl := Option.some.inj h
    split
    · exact hhigh
    · exact hlow
  · next hlow _ =>
    obtain rfl := Option.some.inj h
    exact hlow
  · next _ hhigh =>
    obtain rfl := Option.some.inj h
    exact hhigh
  · cases h

/-- A neighbour below reads back if it is near enough. -/
theorem holds_of_near {x : ℚ} (hle : x ≤ i.m * 2 ^ i.q) (hnear : i.m * 2 ^ i.q < x + 2 ^ i.q / 4) :
    i.Holds x := by
  have hpow : (0 : ℚ) < 2 ^ i.q := by positivity
  have hlow : (i.m : ℚ) - 1 / 4 < x / 2 ^ i.q := by
    rw [lt_div_iff₀ hpow]
    linarith
  have hhigh : x / 2 ^ i.q ≤ i.m := by
    rw [div_le_iff₀ hpow]
    exact hle
  have hbelow : (1 : ℚ) ≤ i.below := by exact_mod_cast i.one_le_below
  refine ⟨by linarith, by linarith, ?_⟩
  rintro (h | h) <;> linarith

/-- The search ends with digits that read back, if its last grid is fine enough. -/
theorem holds_search (hi : Canonical i.m i.q) (hm : 0 < i.m) (left : Nat) {e : Int}
    (hfine : (10 : ℚ) ^ (e - left + 17) ≤ i.m * 2 ^ i.q) :
    i.Holds ((search i left e).1 * 10 ^ (search i left e).2) := by
  induction left generalizing e with
  | zero =>
    obtain ⟨hden, heq⟩ := fraction_eq i.m i.q
    obtain ⟨hle, hlt⟩ := neighbours_le (fraction i.m i.q).1 hden e
    rw [heq] at hle hlt
    refine holds_of_near hle (hlt.trans_le ?_)
    have hpow : (0 : ℚ) < 2 ^ i.q := by positivity
    have hm' : (i.m : ℚ) < 2 ^ 53 := by exact_mod_cast hi.below
    have hgrid : (10 : ℚ) ^ e * 10 ^ 17 ≤ i.m * 2 ^ i.q := by
      rw [Nat.cast_zero, sub_zero, zpow_add₀ (by norm_num)] at hfine
      exact_mod_cast hfine
    have hsmall : (10 : ℚ) ^ e ≤ 2 ^ i.q / 4 := by nlinarith
    rw [search, add_mul, one_mul]
    linarith
  | succ left ih =>
    rw [search]
    split
    · next d h => exact holds_of_hit? hm h
    · exact ih (by convert hfine using 2; push_cast; ring)

/-! ## The first grid -/

/-- A number is smaller than ten to the number of its digits. -/
theorem lt_pow_decimalLength (n : Nat) : n < 10 ^ decimalLength n := by
  fun_induction decimalLength n with
  | case1 n h => simpa using h
  | case2 n h ih =>
    rw [Nat.pow_succ]
    omega

theorem decimalLength_pos (n : Nat) : 0 < decimalLength n := by
  unfold decimalLength
  split <;> omega

/-- It is not smaller than the power of ten before that. -/
theorem pow_decimalLength_le {n : Nat} (h : n ≠ 0) : 10 ^ (decimalLength n - 1) ≤ n := by
  fun_induction decimalLength n with
  | case1 n _ =>
    show 1 ≤ n
    omega
  | case2 n hn ih =>
    have hle := ih (by omega)
    have hpos := decimalLength_pos (n / 10)
    obtain ⟨k, hk⟩ : ∃ k, decimalLength (n / 10) = k + 1 := ⟨_, (Nat.sub_one_add_one hpos.ne').symm⟩
    rw [hk] at hle ⊢
    simp only [Nat.add_sub_cancel] at hle ⊢
    rw [Nat.pow_succ]
    omega

/-- The digits of a number do not begin before its magnitude. -/
theorem pow_magnitude_le {num den : Nat} (hnum : 0 < num) (hden : 0 < den) :
    (10 : ℚ) ^ (magnitude num den - 1) ≤ (num : ℚ) / den := by
  have hden' : (0 : ℚ) < den := by exact_mod_cast hden
  have hnum' : (0 : ℚ) < num := by exact_mod_cast hnum
  unfold magnitude
  split
  · next hge =>
    have hle := pow_decimalLength_le (Nat.div_pos hge hden).ne'
    have hpos := decimalLength_pos (num / den)
    have hexp :
        ((decimalLength (num / den) : Int) - 1) = (decimalLength (num / den) - 1 : Nat) := by
      omega
    rw [hexp, zpow_natCast, le_div_iff₀ hden']
    exact_mod_cast (Nat.mul_le_mul_right den hle).trans (Nat.div_mul_le_self num den)
  · next hlt =>
    have hceil := lt_pow_decimalLength ((den + num - 1) / num - 1)
    generalize decimalLength ((den + num - 1) / num - 1) = k at hceil
    have hle : den ≤ 10 ^ k * num := by
      have hmul : (den + num - 1) / num ≤ 10 ^ k := by omega
      have := Nat.lt_div_mul_add hnum (a := den + num - 1)
      have := Nat.mul_le_mul_right num hmul
      omega
    have hexp : (1 - (k : Int) - 1) = -(k : Int) := by omega
    rw [hexp, zpow_neg, zpow_natCast, inv_le_comm₀ (by positivity) (by positivity), inv_div,
      div_le_iff₀ hnum']
    exact_mod_cast hle

/-! ## Digits -/

/-- Zeros at the end may be dropped. -/
theorem stripZeros_eq (d : Nat) (e : Int) :
    ((stripZeros d e).1 : ℚ) * 10 ^ (stripZeros d e).2 = d * 10 ^ e := by
  fun_induction stripZeros d e with
  | case1 d e h ih =>
    have hd : d = d / 10 * 10 := by omega
    rw [ih, zpow_add_one₀ (by norm_num)]
    conv_rhs => rw [hd]
    push_cast
    ring
  | case2 => rfl

/-- **The digits lie in the interval.** -/
theorem digits_holds {m : Nat} {q : Int} (h : Canonical m q) (hm : 0 < m) :
    Interval.Holds ⟨m, q⟩ ((digits m q).1 * 10 ^ (digits m q).2) := by
  obtain ⟨hden, heq⟩ := fraction_eq m q
  have hnum : 0 < (fraction m q).1 := by
    refine Nat.pos_of_ne_zero fun hzero => ?_
    have hpos : (0 : ℚ) < m * 2 ^ q := by positivity
    rw [← heq, hzero] at hpos
    simp at hpos
  have hfine := pow_magnitude_le hnum hden
  simp only [digits]
  rw [stripZeros_eq]
  refine holds_search h hm 17 ?_
  rw [← heq]
  convert hfine using 2
  push_cast
  ring

/-- Nothing reads back as a number above zero that is not above zero itself. -/
theorem Interval.Holds.digits_ne_zero {d : Nat} {e : Int} (h : i.Holds (d * 10 ^ e))
    (hm : 0 < i.m) : d ≠ 0 := by
  rintro rfl
  have hm' : (1 : ℚ) ≤ i.m := by exact_mod_cast hm
  have hbelow : (i.below : ℚ) ≤ 2 := by exact_mod_cast i.below_le
  have hlow := h.low
  rw [Nat.cast_zero, zero_mul, zero_div, mul_zero] at hlow
  linarith

/-- This power of ten is not above half of the least positive number. -/
theorem least_pow_le : (10 : ℚ) ^ (-330 : Int) ≤ 2 ^ (-1075 : Int) := by
  have hnat : 2 ^ 1075 ≤ 10 ^ 330 := by decide +kernel
  have hcast : (2 : ℚ) ^ 1075 ≤ 10 ^ 330 := by exact_mod_cast hnat
  rw [zpow_neg, zpow_neg]
  exact inv_anti₀ (by positivity) hcast

/-- This one is above all finite numbers. -/
theorem greatest_pow_le : (2 : ℚ) ^ (1024 : Int) ≤ 10 ^ (310 : Int) := by
  have hnat : 2 ^ 1024 ≤ 10 ^ 310 := by decide +kernel
  exact_mod_cast hnat

/-- What reads back is neither too large nor too small for the powers of ten that are
looked at. -/
theorem Interval.Holds.bounds {x : ℚ} (h : i.Holds x) (hi : Canonical i.m i.q) (hm : 0 < i.m) :
    10 ^ (-330 : Int) ≤ x ∧ x < 10 ^ (310 : Int) := by
  have hpow : (0 : ℚ) < 2 ^ i.q := by positivity
  constructor
  · have hm' : (1 : ℚ) ≤ i.m := by exact_mod_cast hm
    have hbelow : (i.below : ℚ) ≤ 2 := by exact_mod_cast i.below_le
    have hhalf : 1 / 2 ≤ x / 2 ^ i.q := by linarith [h.low]
    calc (10 : ℚ) ^ (-330 : Int) ≤ 2 ^ (-1075 : Int) := least_pow_le
      _ = 1 / 2 * 2 ^ (-1074 : Int) := by
        rw [show (-1075 : Int) = -1 + -1074 by decide, zpow_add₀ two_ne_zero, zpow_neg_one, one_div]
      _ ≤ 1 / 2 * 2 ^ i.q := mul_le_mul_of_nonneg_left (two_zpow_le hi.least) (by norm_num)
      _ ≤ x := (le_div_iff₀ hpow).mp hhalf
  · calc x < 2 ^ 53 * 2 ^ i.q := h.below_lt hi
      _ ≤ 2 ^ 53 * 2 ^ (971 : Int) :=
        mul_le_mul_of_nonneg_left (two_zpow_le hi.greatest) (by positivity)
      _ = 2 ^ (1024 : Int) := by
        rw [show (1024 : Int) = (53 : Nat) + 971 by decide, zpow_add₀ two_ne_zero, zpow_natCast]
      _ ≤ 10 ^ (310 : Int) := greatest_pow_le

/-- The number nearest to a decimal that reads back is the number, whichever way it is written. -/
theorem ofDecimal_of_holds (hi : Canonical i.m i.q) (hm : 0 < i.m) (negative : Bool) {d : Nat}
    {e : Int} (h : i.Holds (d * 10 ^ e)) :
    ofDecimal negative d e = withSign negative (pack i.m i.q) := by
  obtain ⟨hsmall, hlarge⟩ := h.bounds hi hm
  have hd := h.digits_ne_zero hm
  have hd' : (1 : ℚ) ≤ d := by exact_mod_cast Nat.one_le_iff_ne_zero.mpr hd
  have hpow : (0 : ℚ) < 10 ^ e := by positivity
  have he : ¬310 < e := fun he => by
    have hle : (10 : ℚ) ^ (310 : Int) ≤ 10 ^ e := zpow_le_zpow_right₀ (by norm_num) he.le
    exact absurd (hle.trans (le_mul_of_one_le_left hpow.le hd')) (not_le.mpr hlarge)
  have hlength : ¬e + decimalLength d < -330 := fun hlt => by
    have hdigits : (d : ℚ) < 10 ^ (decimalLength d : Int) := by
      rw [zpow_natCast]
      exact_mod_cast lt_pow_decimalLength d
    have hprod : (10 : ℚ) ^ (decimalLength d : Int) * 10 ^ e = 10 ^ (e + decimalLength d) := by
      rw [add_comm, zpow_add₀ (by norm_num)]
    have hle : (10 : ℚ) ^ (e + decimalLength d) ≤ 10 ^ (-330 : Int) :=
      zpow_le_zpow_right₀ (by norm_num) hlt.le
    have hless := mul_lt_mul_of_pos_right hdigits hpow
    rw [hprod] at hless
    exact absurd (hsmall.trans_lt (hless.trans_le hle)) (lt_irrefl _)
  obtain ⟨hden, heq⟩ := decimal_eq d e
  rw [← heq] at h
  have hnearest := nearest_of_holds hi hden h
  rw [ofDecimal, if_neg hd, if_neg he, if_neg hlength]
  unfold decimal at hnearest
  split at hnearest
  · next hsign => rw [if_pos hsign, ofFraction, hnearest]
  · next hsign => rw [if_neg hsign, ofFraction, hnearest]

end LintPatrol.Number.Shortest
