import LintPatrol.Time.Calendar

/-!
# LintPatrol.Proofs.Time.Calendar

Every number of a day is the number of its date, and that date is one of the
calendar: `toDays_ofDays` and `isValid_ofDays`.  Both go through the counts by
which a day is found, the era, the year from March, the month from March and the
day of the month, each from 0: the date of such counts is `ofMarch`, and
`exists_ofMarch` says that the date of a number is one.  Days are in the order
of their years (`le_year_ofDays_iff`), so bounds on years are bounds on days.
-/

namespace LintPatrol.Time.Date

/-! ## Counting from March -/

/-- The days of an era before a year of it. -/
def daysBefore (y : Int) : Int := 365 * y + y / 4 - y / 100

/-- The days of a year before a month of it. -/
def daysInYear (m : Int) : Int := (153 * m + 2) / 5

/-- The date of a day of a month of a year of an era. -/
def ofMarch (era y m k : Int) : Date :=
  ⟨y + era * 400 + (if m < 10 then 0 else 1), (if m < 10 then m + 3 else m - 9).toNat,
    (k + 1).toNat⟩

/-- The counts are those of a day that there is.  Only the last day of a year
can be its 366th, and only where the next February has a leap day. -/
structure IsDay (y m k : Int) : Prop where
  year : 0 ≤ y ∧ y < 400
  month : 0 ≤ m ∧ m ≤ 11
  day : 0 ≤ k ∧ daysInYear m + k < daysInYear (m + 1)
  within : daysInYear m + k ≤ 365
  leap : daysInYear m + k = 365 → y % 4 = 3 ∧ (y % 100 ≠ 99 ∨ y = 399)

/-- The year that is found for a day of an era is the one the day lies in. -/
theorem yearOfEra_bounds {doe y : Int} (h : 0 ≤ doe ∧ doe < 146097)
    (hy : y = (doe - doe / 1460 + doe / 36524 - doe / 146096) / 365) :
    (0 ≤ y ∧ y < 400) ∧ (daysBefore y ≤ doe ∧ doe ≤ daysBefore y + 365) ∧
      (doe = daysBefore y + 365 → y % 4 = 3 ∧ (y % 100 ≠ 99 ∨ y = 399)) := by
  rw [daysBefore]
  rcases Int.lt_or_le doe 146096 with hlt | hge
  · have hlast : doe / 146096 = 0 := by omega
    rw [hlast] at hy
    -- the days are followed through one century after the other, where the quotients are linear
    have hcentury : doe / 36524 = 0 ∨ doe / 36524 = 1 ∨ doe / 36524 = 2 ∨ doe / 36524 = 3 := by
      omega
    have hhundred : y / 100 = doe / 36524 := by
      obtain hc | hc | hc | hc := hcentury <;> rw [hc] at hy ⊢ <;> omega
    have hfour : y / 4 ≤ doe / 1460 ∧ doe / 1460 ≤ y / 4 + 1 := by
      obtain hc | hc | hc | hc := hcentury <;> rw [hc] at hy <;> omega
    rw [hhundred]
    obtain hc | hc | hc | hc := hcentury <;> rw [hc] at hy ⊢ <;> omega
  · obtain rfl : doe = 146096 := by omega
    omega

/-- The month that is found for a day of a year is the one the day lies in. -/
theorem month_bounds {doy m : Int} (h : 0 ≤ doy ∧ doy ≤ 365) (hm : m = (5 * doy + 2) / 153) :
    (0 ≤ m ∧ m ≤ 11) ∧ daysInYear m ≤ doy ∧ doy < daysInYear (m + 1) := by
  simp only [daysInYear]
  omega

/-- The months up to the second one belong to the next year. -/
theorem mk_eq_ofMarch {m : Int} (hm : 0 ≤ m ∧ m ≤ 11) (era y doy : Int) :
    (⟨y + era * 400 + (if (if m < 10 then m + 3 else m - 9) ≤ 2 then 1 else 0),
      (if m < 10 then m + 3 else m - 9).toNat, (doy - daysInYear m + 1).toNat⟩ : Date) =
      ofMarch era y m (doy - daysInYear m) := by
  have hnext : (if (if m < 10 then m + 3 else m - 9) ≤ 2 then (1 : Int) else 0) =
      if m < 10 then 0 else 1 := by
    split <;> split <;> omega
  rw [hnext, ofMarch]

/-- The date of a number is found by counting from March. -/
theorem exists_ofMarch (n : Int) :
    ∃ era y m k, IsDay y m k ∧ ofDays n = ofMarch era y m k ∧
      n = era * eraLength + daysBefore y + daysInYear m + k - epochOffset := by
  have hera := Int.ediv_mul_add_emod (n + epochOffset) eraLength
  have hdoe : 0 ≤ (n + epochOffset) % eraLength ∧ (n + epochOffset) % eraLength < 146097 :=
    ⟨Int.emod_nonneg _ (by decide), Int.emod_lt_of_pos _ (by decide)⟩
  obtain ⟨hyear, ⟨hlow, hhigh⟩, hleap⟩ := yearOfEra_bounds hdoe rfl
  obtain ⟨hmonth, hfirst, hlast⟩ :=
    month_bounds ⟨Int.sub_nonneg_of_le hlow, Int.sub_left_le_of_le_add hhigh⟩ rfl
  refine ⟨(n + epochOffset) / eraLength, _, _, _ - daysInYear _,
    ⟨hyear, hmonth, ⟨Int.sub_nonneg_of_le hfirst, ?_⟩, ?_, ?_⟩, ?_, ?_⟩
  · omega
  · omega
  · omega
  · exact mk_eq_ofMarch hmonth _ _ _
  · omega

/-! ## Numbers of days -/

/-- The number of the date of some counts. -/
theorem toDays_ofMarch {era y m k : Int} (h : IsDay y m k) :
    (ofMarch era y m k).toDays =
      era * eraLength + daysBefore y + daysInYear m + k - epochOffset := by
  obtain ⟨hyear, hmonth, ⟨hk, -⟩, -, -⟩ := h
  have hday : ((k + 1).toNat : Int) = k + 1 := Int.toNat_of_nonneg (by omega)
  have hera : (y + era * 400) / 400 = era := by omega
  have hyears : (y + era * 400) % 400 = y := by omega
  by_cases hlt : m < 10
  · have hmonths : ((m + 3).toNat : Int) = m + 3 := Int.toNat_of_nonneg (by omega)
    have hlate : ¬(m + 3).toNat ≤ 2 := by omega
    simp only [toDays, ofMarch, if_pos hlt, if_neg hlate, hmonths, hday, Int.add_zero, hera,
      hyears, Int.add_sub_cancel, daysBefore, daysInYear]
    omega
  · have hmonths : ((m - 9).toNat : Int) = m - 9 := Int.toNat_of_nonneg (by omega)
    have hearly : (m - 9).toNat ≤ 2 := by omega
    simp only [toDays, ofMarch, if_neg hlt, if_pos hearly, hmonths, hday, Int.add_sub_cancel,
      hera, hyears, Int.sub_add_cancel, daysBefore, daysInYear]
    omega

/-- **The date of a number has that number.** -/
@[simp] theorem toDays_ofDays (n : Int) : (ofDays n).toDays = n := by
  obtain ⟨era, y, m, k, hday, hdate, hn⟩ := exists_ofMarch n
  rw [hdate, toDays_ofMarch hday, ← hn]

/-! ## Dates of the calendar -/

/-- The year that a year from March ends in has a leap day if it is a fourth one, a
hundredth one only at the end of an era. -/
theorem isLeap_iff (era : Int) {y : Int} (hy : 0 ≤ y ∧ y < 400) :
    isLeap (y + era * 400 + 1) = true ↔ y % 4 = 3 ∧ (y % 100 ≠ 99 ∨ y = 399) := by
  simp only [isLeap, decide_eq_true_eq]
  omega

/-- Every month but February is as long as the days up to the next one. -/
theorem monthLength_ofMarch {m : Int} (h : 0 ≤ m ∧ m < 11) (era y k : Int) :
    (monthLength (ofMarch era y m k).year (ofMarch era y m k).month : Int) =
      daysInYear (m + 1) - daysInYear m := by
  have hmonths : m = 0 ∨ m = 1 ∨ m = 2 ∨ m = 3 ∨ m = 4 ∨ m = 5 ∨ m = 6 ∨ m = 7 ∨ m = 8 ∨ m = 9 ∨
      m = 10 := by omega
  obtain rfl | rfl | rfl | rfl | rfl | rfl | rfl | rfl | rfl | rfl | rfl := hmonths <;> rfl

/-- A day of the era is a date. -/
theorem isValid_ofMarch {era y m k : Int} (h : IsDay y m k) :
    (ofMarch era y m k).isValid = true := by
  obtain ⟨hyear, hmonth, ⟨hk, hlast⟩, hwithin, hleap⟩ := h
  have hday : ((ofMarch era y m k).day : Int) = k + 1 := Int.toNat_of_nonneg (by omega)
  have hmonths : 1 ≤ (ofMarch era y m k).month ∧ (ofMarch era y m k).month ≤ 12 := by
    simp only [ofMarch]
    split <;> omega
  simp only [isValid, decide_eq_true_eq]
  refine ⟨hmonths.1, hmonths.2, by omega, ?_⟩
  rcases Int.lt_or_le m 11 with hlt | hge
  · have hlength := monthLength_ofMarch ⟨hmonth.1, hlt⟩ era y k
    omega
  · obtain rfl : m = 11 := by omega
    rw [← isLeap_iff era hyear] at hleap
    simp only [daysInYear] at hwithin hleap
    have hmonth : (ofMarch era y 11 k).month = 2 := rfl
    have hyears : (ofMarch era y 11 k).year = y + era * 400 + 1 := rfl
    rw [monthLength, if_pos hmonth, hyears]
    cases hl : isLeap (y + era * 400 + 1) with
    | true => simp; omega
    | false => simp [hl] at hleap ⊢; omega

/-- The date of a number is one of the calendar. -/
theorem isValid_ofDays (n : Int) : (ofDays n).isValid = true := by
  obtain ⟨era, y, m, k, hday, hdate, -⟩ := exists_ofMarch n
  rw [hdate]
  exact isValid_ofMarch hday

theorem isValid_iff (d : Date) :
    d.isValid = true ↔
      (1 ≤ d.month ∧ d.month ≤ 12) ∧ 1 ≤ d.day ∧ d.day ≤ monthLength d.year d.month := by
  simp only [isValid, decide_eq_true_eq, and_assoc]

theorem monthLength_le (year : Int) (month : Nat) : monthLength year month ≤ 31 := by
  unfold monthLength
  split <;> split <;> decide

/-! ## Years -/

def newYear (year : Int) : Date := ⟨year, 1, 1⟩

/-- A year begins on the first day of the tenth month after a March. -/
theorem newYear_eq (year : Int) :
    newYear year = ofMarch ((year - 1) / 400) ((year - 1) % 400) 10 0 := by
  have hyear : (year - 1) % 400 + (year - 1) / 400 * 400 + 1 = year := by omega
  simp [newYear, ofMarch, hyear]

/-- **A day lies in a year or a later one** just if it is not before the first day of that
year. -/
theorem le_year_ofDays_iff (year n : Int) :
    year ≤ (ofDays n).year ↔ (newYear year).toDays ≤ n := by
  obtain ⟨era, y, m, k, hday, hdate, hn⟩ := exists_ofMarch n
  have hnew : IsDay ((year - 1) % 400) 10 0 :=
    ⟨by omega, by decide, by decide, by decide, fun h => absurd h (by decide)⟩
  have hyears : (year - 1) % 400 + (year - 1) / 400 * 400 + 1 = year := by omega
  rw [hdate, newYear_eq, toDays_ofMarch hnew, hn]
  generalize (year - 1) % 400 = y' at hnew hyears ⊢
  generalize (year - 1) / 400 = era' at hyears ⊢
  obtain ⟨hy, hm, hk, hwithin, -⟩ := hday
  have hy' := hnew.year
  -- the new year is the first day of the eleventh month from March
  have hten : daysInYear 10 = 306 := rfl
  have hmonth : m < 10 ↔ daysInYear m + k < 306 := by
    simp only [daysInYear] at *
    omega
  have hfirst : 0 ≤ daysInYear m + k := by
    simp only [daysInYear]
    omega
  have hrange (z : Int) (hz : 0 ≤ z ∧ z < 400) : 0 ≤ daysBefore z ∧ daysBefore z < 145732 := by
    simp only [daysBefore]
    omega
  have hmono (z w : Int) (hlt : z < w) : daysBefore z + 365 ≤ daysBefore w := by
    simp only [daysBefore]
    omega
  have hb := hrange y hy
  have hb' := hrange y' hy'
  simp only [ofMarch, eraLength]
  rcases Int.lt_trichotomy era era' with hlt | rfl | hgt
  · split <;> omega
  · rcases Int.lt_trichotomy y y' with hlt | rfl | hgt
    · have := hmono y y' hlt
      split <;> omega
    · split <;> omega
    · have := hmono y' y hgt
      split <;> omega
  · split <;> omega

end LintPatrol.Time.Date
