import LintPatrol.Number.Binary64
import Mathlib.Algebra.Order.Field.Power
import Mathlib.Algebra.Order.Ring.Rat
import Mathlib.Data.Rat.Cast.Defs
import Mathlib.Tactic.FieldSimp
import Mathlib.Tactic.Linarith
import Mathlib.Tactic.NormNum
import Mathlib.Tactic.Positivity
import Mathlib.Tactic.Ring

/-!
# LintPatrol.Proofs.Number.Rounding

What `Binary64.nearest` makes of a fraction, said of the rational number that
the fraction is.  A number has one exponent (`IsExponent`) and, divided by that
power of two, one nearest integer (`RoundsTo`); the two together are the word.

## Main statements

* `Binary64.nearest_eq`: the word of a fraction from its exponent and its `m`.
* `Binary64.nearest_mono`: the greater fraction has the greater word.
-/

namespace LintPatrol.Number

/-! ## Fractions with powers -/

theorem cast_twoTo (k : Nat) : (twoTo k : ℚ) = 2 ^ k := by
  induction k with
  | zero => simp
  | succ k ih => rw [twoTo_succ, Nat.cast_mul, ih, pow_succ, Nat.cast_ofNat]

theorem cast_tenTo (k : Nat) : (tenTo k : ℚ) = 10 ^ k := by
  induction k with
  | zero => simp
  | succ k ih => rw [tenTo_succ, Nat.cast_mul, ih, pow_succ, Nat.cast_ofNat]

theorem zpow_of_nonneg (b : ℚ) {q : Int} (h : 0 ≤ q) : b ^ q = b ^ q.toNat := by
  conv_lhs => rw [← Int.toNat_of_nonneg h, zpow_natCast]

theorem zpow_of_neg (b : ℚ) {q : Int} (h : ¬0 ≤ q) : b ^ q = (b ^ (-q).toNat)⁻¹ := by
  rw [← zpow_of_nonneg b (by omega), zpow_neg, inv_inv]

namespace Binary64

/-- A scaled number as a quotient of two whole ones. -/
theorem fraction_eq (m : Nat) (q : Int) :
    0 < (fraction m q).2 ∧ ((fraction m q).1 : ℚ) / (fraction m q).2 = m * 2 ^ q := by
  unfold fraction
  split
  · next hq => simp [cast_twoTo, zpow_of_nonneg 2 hq]
  · next hq => simp [cast_twoTo, zpow_of_neg 2 hq, twoTo_pos, div_eq_mul_inv]

/-- A quotient is scaled down by a power of two. -/
theorem unscale_eq (num : Nat) {den : Nat} (hden : 0 < den) (q : Int) :
    0 < (unscale num den q).2 ∧
      ((unscale num den q).1 : ℚ) / (unscale num den q).2 = (num : ℚ) / den / 2 ^ q := by
  unfold unscale
  split
  · next hq =>
    simp [cast_twoTo, zpow_of_nonneg 2 hq, hden, twoTo_pos, div_div]
  · next hq =>
    simp only [Nat.cast_mul, cast_twoTo, zpow_of_neg 2 hq, div_inv_eq_mul]
    exact ⟨hden, by ring⟩

/-! ## Rounding to integers -/

/-- The integer is the nearest one, and even if there are two. -/
structure RoundsTo (y : ℚ) (m : Nat) : Prop where
  low : 2 * m - 1 ≤ 2 * y
  high : 2 * y ≤ 2 * m + 1
  even : 2 * y = 2 * m - 1 ∨ 2 * y = 2 * m + 1 → m % 2 = 0

/-- A number is rounded to one whole number only. -/
theorem RoundsTo.unique {y : ℚ} {m k : Nat} (h : RoundsTo y m) (h' : RoundsTo y k) : m = k := by
  have hmk : (m : ℚ) ≤ k + 1 := by linarith [h.low, h'.high]
  have hkm : (k : ℚ) ≤ m + 1 := by linarith [h'.low, h.high]
  have hmk' : m ≤ k + 1 := by exact_mod_cast hmk
  have hkm' : k ≤ m + 1 := by exact_mod_cast hkm
  rcases Nat.lt_trichotomy m k with hlt | heq | hgt
  · obtain rfl : k = m + 1 := by omega
    have htie : 2 * y = 2 * m + 1 := by
      have := h'.low
      push_cast at this
      linarith [h.high]
    have hm := h.even (.inr htie)
    have hk := h'.even (.inl (by push_cast; linarith))
    omega
  · exact heq
  · obtain rfl : m = k + 1 := by omega
    have htie : 2 * y = 2 * k + 1 := by
      have := h.low
      push_cast at this
      linarith [h'.high]
    have hk := h'.even (.inr htie)
    have hm := h.even (.inl (by push_cast; linarith))
    omega

/-- Rounding keeps the order. -/
theorem RoundsTo.mono {y z : ℚ} {m k : Nat} (hyz : y ≤ z) (h : RoundsTo y m) (h' : RoundsTo z k) :
    m ≤ k := by
  rcases hyz.eq_or_lt with rfl | hlt
  · exact (h.unique h').le
  · have hmk : (m : ℚ) < k + 1 := by linarith [h.low, h'.high]
    have hmk' : m < k + 1 := by exact_mod_cast hmk
    omega

/-- Whole numbers are rounded to themselves. -/
theorem RoundsTo.natCast (k : Nat) : RoundsTo k k :=
  ⟨by linarith, by linarith, by rintro (h | h) <;> linarith⟩

/-- What is computed is the number rounded, halves to the even side. -/
theorem divHalfEven_roundsTo (num : Nat) {den : Nat} (hden : 0 < den) :
    RoundsTo ((num : ℚ) / den) (divHalfEven num den) := by
  have hden' : (0 : ℚ) < den := by exact_mod_cast hden
  have hnum : (num : ℚ) = den * (num / den : Nat) + (num % den : Nat) := by
    exact_mod_cast (Nat.div_add_mod num den).symm
  have hlt : num % den < den := Nat.mod_lt num hden
  have hy : 2 * ((num : ℚ) / den) = 2 * (num / den : Nat) + (2 * (num % den) : Nat) / den := by
    rw [hnum]
    push_cast
    field_simp
  simp only [divHalfEven]
  generalize num / den = d at hy ⊢
  generalize num % den = r at hy hlt ⊢
  have hbelow : ((2 * r : Nat) : ℚ) / den ≤ 1 ↔ 2 * r ≤ den := by
    rw [div_le_one hden', Nat.cast_le]
  have habove : 1 ≤ ((2 * r : Nat) : ℚ) / den ↔ den ≤ 2 * r := by
    rw [one_le_div hden', Nat.cast_le]
  have hnonneg : 0 ≤ ((2 * r : Nat) : ℚ) / den := by positivity
  have hlt' : ((2 * r : Nat) : ℚ) / den < 2 := by
    rw [div_lt_iff₀ hden']
    exact_mod_cast Nat.mul_lt_mul_of_pos_left hlt two_pos
  generalize ((2 * r : Nat) : ℚ) / den = t at *
  split
  · next hup =>
    have ht : 1 ≤ t := habove.mpr (by omega)
    refine ⟨?_, ?_, ?_⟩
    · push_cast; linarith
    · push_cast; linarith
    · rintro (h | h)
      · have ht' : t = 1 := by push_cast at h; linarith
        have hle : 2 * r ≤ den := hbelow.mp ht'.le
        omega
      · push_cast at h
        linarith
  · next hdown =>
    have ht : t ≤ 1 := hbelow.mpr (by omega)
    refine ⟨by linarith, by linarith, ?_⟩
    rintro (h | h)
    · linarith
    · have hge : den ≤ 2 * r := habove.mp (by linarith)
      omega

/-! ## Exponents -/

/-- The exponent at which the number has an `m` of 53 bits, or the least one
if that is larger. -/
structure IsExponent (x : ℚ) (q : Int) : Prop where
  least : minExponent ≤ q
  below : x < 2 ^ 53 * 2 ^ q
  above : q = minExponent ∨ 2 ^ 52 * 2 ^ q ≤ x

theorem two_zpow_le {q r : Int} (h : q ≤ r) : (2 : ℚ) ^ q ≤ 2 ^ r :=
  zpow_le_zpow_right₀ one_le_two h

theorem double_zpow_le {q r : Int} (h : q < r) : 2 * (2 : ℚ) ^ q ≤ 2 ^ r := by
  have hdouble : 2 * (2 : ℚ) ^ q = 2 ^ (q + 1) := by
    rw [zpow_add_one₀ two_ne_zero, mul_comm]
  rw [hdouble]
  exact two_zpow_le (by omega)

/-- The larger number has no smaller exponent. -/
theorem IsExponent.mono {x y : ℚ} {q r : Int} (hxy : x ≤ y) (h : IsExponent x q)
    (h' : IsExponent y r) : q ≤ r := by
  by_contra hlt
  have hstep := double_zpow_le (show r < q by omega)
  have hq : q ≠ minExponent := by have := h'.least; omega
  have hlow := h.above.resolve_left hq
  linarith [h'.below]

/-- A number has one exponent. -/
theorem IsExponent.unique {x : ℚ} {q r : Int} (h : IsExponent x q) (h' : IsExponent x r) : q = r :=
  le_antisymm (h.mono le_rfl h') (h'.mono le_rfl h)

theorem log2_bounds {n : Nat} (h : n ≠ 0) :
    (2 : ℚ) ^ (Nat.log2 n : Int) ≤ n ∧ (n : ℚ) < 2 * 2 ^ (Nat.log2 n : Int) := by
  have hle : 2 ^ Nat.log2 n ≤ n := Nat.log2_self_le h
  have hlt : n < 2 ^ Nat.log2 n * 2 := Nat.lt_log2_self
  rw [zpow_natCast]
  exact ⟨by exact_mod_cast hle, by rw [mul_comm]; exact_mod_cast hlt⟩

/-- A whole bound of a scaled quotient is a bound of the quotient itself. -/
theorem le_unscale_iff (k num : Nat) {den : Nat} (hden : 0 < den) (q : Int) :
    k ≤ (unscale num den q).1 / (unscale num den q).2 ↔ (k : ℚ) * 2 ^ q ≤ (num : ℚ) / den := by
  obtain ⟨hpos, heq⟩ := unscale_eq num hden q
  have hpos' : (0 : ℚ) < (unscale num den q).2 := by exact_mod_cast hpos
  have hpow : (0 : ℚ) < 2 ^ q := by positivity
  rw [Nat.le_div_iff_mul_le hpos, ← le_div_iff₀ hpow, ← heq, le_div_iff₀ hpos']
  exact_mod_cast Iff.rfl

/-- The quotient of two numbers whose binary logarithms are known. -/
theorem quotient_bounds {num den : Nat} (hnum : num ≠ 0) (hden : den ≠ 0) {q : Int}
    (hq : q = (Nat.log2 num : Int) - Nat.log2 den - 53) :
    2 ^ 52 * 2 ^ q ≤ (num : ℚ) / den ∧ (num : ℚ) / den < 2 ^ 54 * 2 ^ q := by
  obtain ⟨hnlow, hnhigh⟩ := log2_bounds hnum
  obtain ⟨hdlow, hdhigh⟩ := log2_bounds hden
  have hden' : (0 : ℚ) < den := by exact_mod_cast Nat.pos_of_ne_zero hden
  have hsplit : (2 : ℚ) ^ (Nat.log2 num : Int) = 2 ^ 53 * 2 ^ q * 2 ^ (Nat.log2 den : Int) := by
    have hexp : (Nat.log2 num : Int) = 53 + q + Nat.log2 den := by omega
    rw [hexp, zpow_add₀ two_ne_zero, zpow_add₀ two_ne_zero]
    norm_num
  have hpow : (0 : ℚ) < 2 ^ q := by positivity
  rw [hsplit] at hnlow hnhigh
  rw [le_div_iff₀ hden', div_lt_iff₀ hden']
  constructor
  · nlinarith
  · nlinarith

/-- The exponent that is computed is that of the quotient. -/
theorem exponentOf_isExponent {num den : Nat} (hnum : num ≠ 0) (hden : den ≠ 0) :
    IsExponent ((num : ℚ) / den) (exponentOf num den) := by
  obtain ⟨q, hq⟩ : ∃ q : Int, q = (Nat.log2 num : Int) - Nat.log2 den - 53 := ⟨_, rfl⟩
  obtain ⟨hlow, hhigh⟩ := quotient_bounds hnum hden hq
  have hcond := le_unscale_iff (twoTo 53) num (Nat.pos_of_ne_zero hden) q
  rw [cast_twoTo] at hcond
  -- Before the least exponent is looked at, there are 53 bits exactly.
  have hbits : ∃ e, exponentOf num den = max minExponent e ∧
      2 ^ 52 * 2 ^ e ≤ (num : ℚ) / den ∧ (num : ℚ) / den < 2 ^ 53 * 2 ^ e := by
    simp only [exponentOf, ← hq]
    split
    · next h =>
      refine ⟨q + 1, rfl, ?_⟩
      rw [zpow_add_one₀ two_ne_zero]
      have := hcond.mp h
      constructor <;> linarith
    · next h =>
      refine ⟨q, rfl, hlow, ?_⟩
      have := mt hcond.mpr h
      linarith
  obtain ⟨e, heq, hle, hlt⟩ := hbits
  rw [heq]
  refine ⟨le_max_left _ _, ?_, ?_⟩
  · have := two_zpow_le (le_max_right minExponent e)
    linarith
  · rcases le_total e minExponent with h | h
    · exact .inl (max_eq_left h)
    · rw [max_eq_right h]
      exact .inr hle

/-! ## The nearest number -/

/-- Exponent and `m` of a fraction decide the word nearest to it. -/
theorem nearest_eq {num den : Nat} (hden : 0 < den) {q : Int} {m : Nat}
    (hq : IsExponent ((num : ℚ) / den) q) (hm : RoundsTo ((num : ℚ) / den / 2 ^ q) m) :
    nearest num den = min infinityBits (pack m q) := by
  unfold nearest
  split
  · next hzero =>
    subst hzero
    have hq' : q = minExponent := by
      refine hq.above.resolve_right fun h => ?_
      have : (0 : ℚ) < 2 ^ q := by positivity
      simp at h
      linarith
    have hm' : m = 0 := by
      refine hm.unique ⟨?_, ?_, ?_⟩ <;> simp
    rw [hq', hm']
    rfl
  · next hnum =>
    have hexp := (exponentOf_isExponent hnum hden.ne').unique hq
    obtain ⟨hpos, heq⟩ := unscale_eq num hden q
    have hround := divHalfEven_roundsTo (unscale num den q).1 hpos
    rw [heq] at hround
    simp only [hexp, hround.unique hm]

theorem exists_isExponent (num : Nat) {den : Nat} (hden : 0 < den) :
    ∃ q, IsExponent ((num : ℚ) / den) q := by
  rcases Nat.eq_zero_or_pos num with rfl | hnum
  · exact ⟨minExponent, le_rfl, by simp; positivity, .inl rfl⟩
  · exact ⟨_, exponentOf_isExponent hnum.ne' hden.ne'⟩

theorem exists_roundsTo (num : Nat) {den : Nat} (hden : 0 < den) (q : Int) :
    ∃ m, RoundsTo ((num : ℚ) / den / 2 ^ q) m := by
  obtain ⟨hpos, heq⟩ := unscale_eq num hden q
  exact ⟨_, heq ▸ divHalfEven_roundsTo (unscale num den q).1 hpos⟩

/-- A packed word counts exponents in steps of `2 ^ 52`, above the significand. -/
theorem pack_eq {q : Int} (hq : minExponent ≤ q) :
    ∃ k : Nat, q = minExponent + k ∧ ∀ m, pack m q = k * twoTo 52 + m :=
  ⟨(q - minExponent).toNat, by omega, fun _ => rfl⟩

/-- What a number with the exponent rounds to has at most 53 bits, and 53 of
them unless the exponent is the least one. -/
theorem IsExponent.bits {x : ℚ} {q : Int} {m : Nat} (hq : IsExponent x q)
    (hm : RoundsTo (x / 2 ^ q) m) : m ≤ 2 ^ 53 ∧ (q = minExponent ∨ 2 ^ 52 ≤ m) := by
  have hpow : (0 : ℚ) < 2 ^ q := by positivity
  refine ⟨hm.mono ?_ (.natCast _), hq.above.imp_right fun h => (RoundsTo.natCast _).mono ?_ hm⟩
  · rw [div_le_iff₀ hpow]
    exact_mod_cast hq.below.le
  · rw [le_div_iff₀ hpow]
    exact_mod_cast h

/-- Nothing is rounded beyond infinity. -/
theorem nearest_le (num den : Nat) : nearest num den ≤ infinityBits := by
  unfold nearest
  split
  · exact Nat.zero_le _
  · exact min_le_left _ _

/-- Rounding to words keeps the order. -/
theorem nearest_mono {num den num' den' : Nat} (hden : 0 < den) (hden' : 0 < den')
    (h : (num : ℚ) / den ≤ (num' : ℚ) / den') : nearest num den ≤ nearest num' den' := by
  obtain ⟨q, hq⟩ := exists_isExponent num hden
  obtain ⟨m, hm⟩ := exists_roundsTo num hden q
  obtain ⟨r, hr⟩ := exists_isExponent num' hden'
  obtain ⟨k, hk⟩ := exists_roundsTo num' hden' r
  rw [nearest_eq hden hq hm, nearest_eq hden' hr hk]
  refine min_le_min le_rfl ?_
  obtain ⟨a, rfl, ha⟩ := pack_eq hq.least
  obtain ⟨b, rfl, hb⟩ := pack_eq hr.least
  rw [ha, hb, show twoTo 52 = 2 ^ 52 from rfl]
  have hqr := hq.mono h hr
  rcases hqr.eq_or_lt with heq | hlt
  · have hab : a = b := by omega
    subst hab
    have hmk : m ≤ k := hm.mono (div_le_div_of_nonneg_right h (by positivity)) hk
    omega
  · have hm' := (hq.bits hm).1
    have hk' := (hr.bits hk).2.resolve_left (by have := hq.least; omega)
    omega

end Binary64

end LintPatrol.Number
