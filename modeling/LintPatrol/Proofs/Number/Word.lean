import LintPatrol.Proofs.Number.Rounding

/-!
# LintPatrol.Proofs.Number.Word

The words of 64 bits and the numbers they stand for.  Below infinity a word
without its sign is `pack m q` for one pair that is `Canonical`; words are
ordered as their numbers are, and the word of a number is the one nearest to it.
Many words stand for no number; `quiet` puts the usual one in their place.
-/

namespace LintPatrol.Number.Binary64

/-! ## Words -/

/-- `m · 2 ^ q` is how a word below infinity writes its number. -/
structure Canonical (m : Nat) (q : Int) : Prop where
  least : minExponent ≤ q
  greatest : q ≤ 971
  below : m < 2 ^ 53
  above : q = minExponent ∨ 2 ^ 52 ≤ m

/-- A packed number is finite. -/
theorem Canonical.pack_lt {m : Nat} {q : Int} (h : Canonical m q) : pack m q < infinityBits := by
  obtain ⟨k, hk, hpack⟩ := pack_eq h.least
  have hk' : k ≤ 2045 := by
    have := h.greatest
    simp only [minExponent] at hk
    omega
  have := h.below
  rw [hpack, infinityBits, show twoTo 52 = 2 ^ 52 from rfl]
  omega

/-- The word of `m · 2 ^ q` is the one nearest to it. -/
theorem Canonical.nearest {m : Nat} {q : Int} (h : Canonical m q) {num den : Nat} (hden : 0 < den)
    (heq : (num : ℚ) / den = m * 2 ^ q) : nearest num den = pack m q := by
  have hpow : (0 : ℚ) < 2 ^ q := by positivity
  have hq : IsExponent ((num : ℚ) / den) q := by
    rw [heq]
    refine ⟨h.least, ?_, h.above.imp_right fun hm => ?_⟩
    · exact mul_lt_mul_of_pos_right (by exact_mod_cast h.below) hpow
    · exact mul_le_mul_of_nonneg_right (by exact_mod_cast hm) hpow.le
  have hm : RoundsTo ((num : ℚ) / den / 2 ^ q) m := by
    rw [heq, mul_div_cancel_right₀ _ hpow.ne']
    exact .natCast m
  rw [nearest_eq hden hq hm]
  exact min_eq_right h.pack_lt.le

/-- A word in its three parts: sign, exponent, fraction. -/
def join (negative : Bool) (e f : Nat) : Binary64 := withSign negative (e * twoTo 52 + f)

/-- Every word is made up of a sign, an exponent and a fraction. -/
theorem exists_join (x : Binary64) : ∃ negative e f, e < 2048 ∧ f < twoTo 52 ∧
    x = join negative e f := by
  have hlt : x.bits.toNat < 2 ^ 64 := x.bits.toNat_lt
  refine ⟨decide (2 ^ 63 ≤ x.bits.toNat), x.bits.toNat / 2 ^ 52 % 2048, x.bits.toNat % 2 ^ 52,
    by omega, Nat.mod_lt _ (twoTo_pos 52), ?_⟩
  have hbits : x = ⟨UInt64.ofNat x.bits.toNat⟩ := by simp
  rw [hbits, join, withSign]
  congr 2
  rw [← hbits, show twoTo 63 = 2 ^ 63 from rfl, show twoTo 52 = 2 ^ 52 from rfl]
  simp only [decide_eq_true_eq]
  split <;> omega

/-- What these three say of the number. -/
theorem view_join (negative : Bool) {e f : Nat} (he : e < 2048) (hf : f < twoTo 52) :
    (join negative e f).view =
      if e = 2047 then if f = 0 then .infinite negative else .nan negative
      else if e = 0 then .finite negative f minExponent
      else .finite negative (twoTo 52 + f) ((e : Int) - 1075) := by
  have hf' : f < 2 ^ 52 := hf
  have hbits : (join negative e f).bits.toNat =
      (if negative then 2 ^ 63 else 0) + (e * 2 ^ 52 + f) := by
    simp only [join, withSign, show twoTo 63 = 2 ^ 63 from rfl, show twoTo 52 = 2 ^ 52 from rfl,
      UInt64.toNat_ofNat']
    split <;> omega
  have hnegative : ((join negative e f).bits.toNat / 2 ^ 63 == 1) = negative := by
    rw [hbits]
    cases negative <;> simp <;> omega
  have hexponent : (join negative e f).bits.toNat / 2 ^ 52 % 2048 = e := by
    rw [hbits]
    split <;> omega
  have hfraction : (join negative e f).bits.toNat % 2 ^ 52 = f := by
    rw [hbits]
    split <;> omega
  simp only [view, show twoTo 63 = 2 ^ 63 from rfl, show twoTo 52 = 2 ^ 52 from rfl, hnegative,
    hexponent, hfraction]

/-- The parts of the word of `m · 2 ^ q`. -/
theorem Canonical.withSign_pack {m : Nat} {q : Int} (h : Canonical m q) (negative : Bool) :
    (withSign negative (pack m q)).view = .finite negative m q := by
  obtain ⟨k, hk, hpack⟩ := pack_eq h.least
  have hm : m < 2 ^ 53 := h.below
  have hk' : k ≤ 2045 := by
    have := h.greatest
    simp only [minExponent] at hk
    omega
  rw [hpack]
  by_cases hsub : m < twoTo 52
  · have hq : q = minExponent := h.above.resolve_right (Nat.not_le.mpr hsub)
    obtain rfl : k = 0 := by omega
    rw [← join, view_join negative (by omega) hsub, hq]
    rfl
  · obtain ⟨f, rfl⟩ := Nat.exists_eq_add_of_le (Nat.le_of_not_lt hsub)
    have hf : f < twoTo 52 := by simp only [show twoTo 52 = 2 ^ 52 from rfl] at hm ⊢; omega
    rw [← Nat.add_assoc, ← Nat.succ_mul, ← join, view_join negative (by omega) hf]
    rw [if_neg (by omega), if_neg (by omega)]
    simp only [minExponent] at hk
    congr 1
    omega

@[simp] theorem view_infinity (negative : Bool) :
    (withSign negative infinityBits).view = .infinite negative := by
  cases negative <;> rfl

/-- Every word below infinity is that of a number. -/
theorem exists_canonical {w : Nat} (h : w < infinityBits) :
    ∃ m q, Canonical m q ∧ pack m q = w := by
  have hw : w < 2047 * 2 ^ 52 := h
  by_cases hsub : w < 2 ^ 52
  · exact ⟨w, minExponent, ⟨le_rfl, by decide, by omega, .inl rfl⟩, by simp [pack]⟩
  · refine ⟨2 ^ 52 + w % 2 ^ 52, w / 2 ^ 52 - 1075, ⟨?_, ?_, ?_, .inr ?_⟩, ?_⟩
    · simp only [minExponent]; omega
    · omega
    · omega
    · omega
    · simp only [pack, minExponent, show twoTo 52 = 2 ^ 52 from rfl]
      omega

/-- A word that stands for a finite number writes it. -/
theorem eq_of_view_finite {x : Binary64} {negative : Bool} {m : Nat} {q : Int}
    (h : x.view = .finite negative m q) : Canonical m q ∧ x = withSign negative (pack m q) := by
  obtain ⟨s, e, f, he, hf, rfl⟩ := exists_join x
  by_cases hinf : e = 2047
  · rw [view_join s he hf, if_pos hinf] at h
    split at h <;> cases h
  · have hf' : f < 2 ^ 52 := hf
    have hlt : e * twoTo 52 + f < infinityBits := by
      simp only [infinityBits, show twoTo 52 = 2 ^ 52 from rfl]
      omega
    obtain ⟨k, r, hkr, hpack⟩ := exists_canonical hlt
    rw [join, ← hpack, hkr.withSign_pack] at h
    obtain ⟨rfl, rfl, rfl⟩ := View.finite.inj h
    exact ⟨hkr, by rw [join, hpack]⟩

theorem eq_of_view_infinite {x : Binary64} {negative : Bool} (h : x.view = .infinite negative) :
    x = withSign negative infinityBits := by
  obtain ⟨s, e, f, he, hf, rfl⟩ := exists_join x
  rw [view_join s he hf] at h
  split at h
  · split at h
    · cases h
      simp [join, infinityBits, *]
    · cases h
  · split at h <;> cases h

/-! ## Their order -/

/-- A packed number can be unpacked in one way. -/
theorem Canonical.unique {m k : Nat} {q r : Int} (h : Canonical m q) (h' : Canonical k r)
    (heq : pack m q = pack k r) : m = k ∧ q = r := by
  have hview := h.withSign_pack false
  rw [heq, h'.withSign_pack false] at hview
  obtain ⟨-, rfl, rfl⟩ := View.finite.inj hview
  exact ⟨rfl, rfl⟩

/-- Words are ordered as their numbers. -/
theorem Canonical.pack_le_iff {m k : Nat} {q r : Int} (h : Canonical m q) (h' : Canonical k r) :
    pack m q ≤ pack k r ↔ (m : ℚ) * 2 ^ q ≤ k * 2 ^ r := by
  obtain ⟨hden, hfraction⟩ := fraction_eq m q
  obtain ⟨hden', hfraction'⟩ := fraction_eq k r
  have hm := h.nearest hden hfraction
  have hk := h'.nearest hden' hfraction'
  constructor
  · intro hle
    by_contra hlt
    have hge : pack k r ≤ pack m q := by
      rw [← hm, ← hk]
      exact nearest_mono hden' hden (by rw [hfraction, hfraction']; linarith)
    obtain ⟨rfl, rfl⟩ := h.unique h' (le_antisymm hle hge)
    exact hlt le_rfl
  · intro hle
    rw [← hm, ← hk]
    exact nearest_mono hden hden' (by rw [hfraction, hfraction']; exact hle)

/-! ## Words that are no number -/

/-- The number, the usual word standing for all words that are no number. -/
def quiet (x : Binary64) : Binary64 :=
  match x.view with
  | .nan negative => withSign negative nan.bits.toNat
  | _ => x

theorem quiet_eq_self {x : Binary64} (h : x.isNaN = false) : x.quiet = x := by
  unfold quiet
  split
  · next negative hview =>
    rw [isNaN, hview] at h
    cases h
  · rfl

@[simp] theorem view_nan (negative : Bool) :
    (withSign negative nan.bits.toNat).view = .nan negative := by
  cases negative <;> rfl

/-- Only a word that is no number is changed, to another one that is none. -/
theorem quiet_eq_or (x : Binary64) :
    x.quiet = x ∨ x.isNaN = true ∧ x.quiet.isNaN = true := by
  cases h : x.isNaN with
  | false => exact .inl (quiet_eq_self h)
  | true =>
    refine .inr ⟨rfl, ?_⟩
    unfold isNaN at h
    split at h
    · next negative hview => simp [quiet, hview, isNaN]
    · cases h

end LintPatrol.Number.Binary64
