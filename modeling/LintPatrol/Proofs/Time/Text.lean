import LintPatrol.Proofs.Number.Decimal
import LintPatrol.Proofs.Time.Calendar
import LintPatrol.Proofs.Time.Millis

/-!
# LintPatrol.Proofs.Time.Text

An instant is read back from its text (`ofText?_text`).  The text is numbers
with marks between them, so there are two layers: numbers of a fixed width are
read whatever stands behind them (`readNumber_padded`), and what is written of
a date and a time is read as that date and that time (`read_written`).
-/

namespace LintPatrol.Time.Instant

open Number Text

/-! ## Numbers of a fixed width -/

theorem toList_padded (width n : Nat) :
    (padded width n).toList =
      List.replicate (width - (Nat.toDigits 10 n).length) '0' ++ Nat.toDigits 10 n := by
  have htext : (toString n).toList = Nat.toDigits 10 n := String.toList_ofList
  rw [padded, String.toList_ofList, htext]

theorem isDigit_of_mem_padded {width n : Nat} {c : Char} (h : c ∈ (padded width n).toList) :
    c.isDigit = true := by
  rw [toList_padded, List.mem_append] at h
  rcases h with hzero | hdigit
  · rw [List.eq_of_mem_replicate hzero]
    rfl
  · exact Nat.isDigit_of_mem_toDigits (by decide) (by decide) hdigit

/-- A padded number is read as it. -/
theorem ofDigitChars_padded (width n : Nat) :
    Nat.ofDigitChars 10 (padded width n).toList 0 = n := by
  rw [toList_padded, Nat.ofDigitChars_append, ofDigitChars_zeros, Nat.zero_mul,
    Nat.ofDigitChars_ten_toDigits]

/-- It has its width, if the number does. -/
theorem length_padded {width n : Nat} (h : n < 10 ^ width) (hwidth : 0 < width) :
    (padded width n).toList.length = width := by
  have hle := (Nat.length_toDigits_le_iff (b := 10) (by decide) hwidth).mpr h
  rw [toList_padded, List.length_append, List.length_replicate]
  omega

/-- A padded number begins with a digit too. -/
theorem exists_padded_cons (width n : Nat) :
    ∃ d ds, (padded width n).toList = d :: ds ∧ d.isDigit = true := by
  have hne : (padded width n).toList ≠ [] := by
    rw [toList_padded]
    exact List.append_ne_nil_of_right_ne_nil _ (toDigits_ne_nil n)
  obtain ⟨d, ds, hds⟩ := List.exists_cons_of_ne_nil hne
  exact ⟨d, ds, hds, isDigit_of_mem_padded (hds ▸ List.mem_cons_self)⟩

/-! ## Reading numbers -/

/-- A text that begins with no blank is not trimmed. -/
theorem trimStart_cons {c : Char} (h : isBlank c = false) (cs : List Char) :
    trimStart (c :: cs) = c :: cs := by
  simp [trimStart, h]

theorem isBlank_of_isDigit {c : Char} (h : c.isDigit = true) : isBlank c = false := by
  have hbounds : '0' ≤ c ∧ c ≤ '9' := by simpa [Char.isDigit, Char.le_def] using h
  exact isBlank_of_between '0' '9' (by decide) hbounds

theorem trimStart_padded (width n : Nat) (rest : List Char) :
    trimStart ((padded width n).toList ++ rest) = (padded width n).toList ++ rest := by
  obtain ⟨d, ds, hds, hd⟩ := exists_padded_cons width n
  rw [hds, List.cons_append, trimStart_cons (isBlank_of_isDigit hd)]

/-- Digits are read one by one, up to the limit. -/
theorem spanNumber_append {ds : List Char} (hds : ∀ c ∈ ds, c.isDigit = true) {limit : Nat}
    (hlimit : ds.length ≤ limit) (rest : List Char) (n k : Nat) :
    spanNumber limit (ds ++ rest) n k =
      spanNumber (limit - ds.length) rest (Nat.ofDigitChars 10 ds n) (k + ds.length) := by
  induction ds generalizing limit n k with
  | nil => rfl
  | cons d ds ih =>
    obtain ⟨hd, hds⟩ := List.forall_mem_cons.mp hds
    rw [List.length_cons] at hlimit
    obtain ⟨limit, rfl⟩ := Nat.exists_eq_add_one_of_ne_zero (show limit ≠ 0 by omega)
    have hdigit : digit? d = some (d.toNat - '0'.toNat) := digit?_eq_some_iff.mpr ⟨hd, rfl⟩
    rw [List.cons_append, spanNumber, hdigit]
    simp only
    rw [ih hds (by omega), Nat.ofDigitChars_cons, List.length_cons, Nat.mul_comm 10 n,
      Nat.add_sub_add_right, Nat.add_assoc, Nat.add_comm 1]

/-- Reading ends at the limit, and where there is no digit. -/
theorem spanNumber_stop {limit : Nat} {rest : List Char} (h : limit = 0 ∨ Stops rest)
    (n k : Nat) : spanNumber limit rest n k = (n, k, rest) := by
  cases limit with
  | zero => rfl
  | succ limit =>
    have hstops := h.resolve_left (Nat.succ_ne_zero limit)
    cases rest with
    | nil => rfl
    | cons c rest =>
      rw [spanNumber, digit?_eq_none_iff.mpr (hstops c rfl)]

/-- Digits are read as the number they write, where they end at the limit or at a
character that is no digit. -/
theorem spanNumber_digits {ds : List Char} (hds : ∀ c ∈ ds, c.isDigit = true) {limit : Nat}
    (hlimit : ds.length ≤ limit) {rest : List Char} (hrest : ds.length = limit ∨ Stops rest) :
    spanNumber limit (ds ++ rest) 0 0 = (Nat.ofDigitChars 10 ds 0, ds.length, rest) := by
  rw [spanNumber_append hds hlimit, Nat.zero_add]
  exact spanNumber_stop (hrest.imp_left fun heq => by omega) _ _

/-- It is taken as a number, up to what is no digit. -/
theorem spanNumber_padded {width n limit : Nat} (h : n < 10 ^ width) (hwidth : 0 < width)
    (hlimit : width ≤ limit) {rest : List Char} (hrest : width = limit ∨ Stops rest) :
    spanNumber limit ((padded width n).toList ++ rest) 0 0 = (n, width, rest) := by
  have hlength := length_padded h hwidth
  rw [spanNumber_digits (fun c hc => isDigit_of_mem_padded hc) (by omega)
    (hrest.imp_left fun heq => by omega), hlength, ofDigitChars_padded]

/-- A number of a fixed width is read whatever stands behind it. -/
theorem readNumber_padded {width n : Nat} (h : n < 10 ^ width) (hwidth : 0 < width)
    (rest : List Char) :
    readNumber width ((padded width n).toList ++ rest) = some (n, rest) := by
  have hspan : spanNumber width ((padded width n).toList ++ rest) 0 0 = (n, width, rest) :=
    spanNumber_padded h hwidth (Nat.le_refl width) (.inl rfl)
  obtain ⟨k, rfl⟩ := Nat.exists_eq_add_one_of_ne_zero (Nat.ne_of_gt hwidth)
  simp only [readNumber, trimStart_padded, hspan]

theorem readMark_cons {mark : Char} (h : isBlank mark = false) (rest : List Char) :
    readMark mark (mark :: rest) = some rest := by
  rw [readMark, trimStart_cons h]
  exact if_pos rfl

/-! ## Years and fractions -/

/-- A number behind a sign is read whatever its length. -/
theorem readYear_signed (negative : Bool) (n : Nat) {rest : List Char} (hrest : Stops rest) :
    readYear.signed negative ((padded 4 n).toList ++ rest) =
      some (if negative then -(n : Int) else n, rest) := by
  have hdigits : ∀ c ∈ (padded 4 n).toList, c.isDigit = true := fun c hc =>
    isDigit_of_mem_padded hc
  have hlimit : (padded 4 n).toList.length ≤ ((padded 4 n).toList ++ rest).length := by simp
  have hspan := spanNumber_digits hdigits hlimit (.inr hrest)
  have hvalue := ofDigitChars_padded 4 n
  obtain ⟨d, ds, hds, -⟩ := exists_padded_cons 4 n
  rw [hds] at hspan hvalue ⊢
  simp only [readYear.signed, hspan, hvalue, List.length_cons]

/-- A year is read up to a character that is no digit. -/
theorem readYear_yearText (year : Int) {rest : List Char} (hrest : Stops rest) :
    readYear ((yearText year).toList ++ rest) = some (year, rest) := by
  rw [yearText]
  split
  · next hplain =>
    obtain ⟨d, ds, hds, hd⟩ := exists_padded_cons 4 year.toNat
    have hread : readNumber 4 ((padded 4 year.toNat).toList ++ rest) = some (year.toNat, rest) :=
      readNumber_padded (by omega) (by decide) rest
    have hvalue : (year.toNat : Int) = year := Int.toNat_of_nonneg hplain.1
    rw [readYear, trimStart_padded]
    split
    · next heq =>
      rw [hds] at heq
      exact absurd (List.cons.inj heq).1 (isDigit_ne hd rfl)
    · next heq =>
      rw [hds] at heq
      exact absurd (List.cons.inj heq).1 (isDigit_ne hd rfl)
    · simp only [hread, Option.map_some, hvalue]
  · next hsigned =>
    rw [String.toList_append]
    split
    · next hneg =>
      have hvalue : -(year.natAbs : Int) = year := by omega
      exact (readYear_signed true year.natAbs hrest).trans (by rw [if_pos rfl, hvalue])
    · next hpos =>
      have hvalue : (year.natAbs : Int) = year := by omega
      exact (readYear_signed false year.natAbs hrest).trans (by rw [hvalue]; rfl)

/-- A fraction is read to the nanosecond. -/
theorem readFraction_padded {width n : Nat} (h : n < 10 ^ width) (hwidth : 0 < width)
    (hnine : width ≤ 9) {rest : List Char} (hrest : Stops rest) :
    readFraction ('.' :: ((padded width n).toList ++ rest)) =
      some (n * tenTo (9 - width), rest) := by
  obtain ⟨k, rfl⟩ := Nat.exists_eq_add_one_of_ne_zero (Nat.ne_of_gt hwidth)
  rw [readFraction, spanNumber_padded h hwidth hnine (.inr hrest)]
  simp only [hrest.dropWhile_digit?]

/-- A fraction is read up to the sign of universal time. -/
theorem readFraction_fractionText {nanos : Nat} (h : nanos < 1000000000) (rest : List Char) :
    readFraction ((fractionText nanos).toList ++ 'Z' :: rest) = some (nanos, 'Z' :: rest) := by
  have hrest : Stops ('Z' :: rest) := stops_cons.mpr rfl
  have hpoint (width n : Nat) :
      ("." ++ padded width n).toList ++ 'Z' :: rest =
        '.' :: ((padded width n).toList ++ 'Z' :: rest) := by
    rw [String.toList_append]
    rfl
  rw [fractionText]
  split
  · next hzero =>
    rw [hzero]
    rfl
  split
  · next hmillis =>
    rw [hpoint, readFraction_padded (by omega) (by decide) (by decide) hrest]
    have hvalue : nanos / 1000000 * tenTo 6 = nanos :=
      Nat.div_mul_cancel (Nat.dvd_of_mod_eq_zero hmillis)
    rw [hvalue]
  split
  · next hmicros =>
    rw [hpoint, readFraction_padded (by omega) (by decide) (by decide) hrest]
    have hvalue : nanos / 1000 * tenTo 3 = nanos :=
      Nat.div_mul_cancel (Nat.dvd_of_mod_eq_zero hmicros)
    rw [hvalue]
  · rw [hpoint, readFraction_padded h (by decide) (by decide) hrest]
    rw [Nat.sub_self, tenTo_zero, Nat.mul_one]

/-! ## Dates and times -/

/-- A date and a time of universal time as they are written. -/
def written (d : Date) (hour minute second nanos : Nat) : List Char :=
  (yearText d.year).toList ++ '-' :: ((padded 2 d.month).toList ++ '-' ::
    ((padded 2 d.day).toList ++ 'T' :: ((padded 2 hour).toList ++ ':' ::
      ((padded 2 minute).toList ++ ':' :: ((padded 2 second).toList ++
        ((fractionText nanos).toList ++ ['Z']))))))

/-- A reading goes on with what has been read. -/
theorem bind_of_eq_some {α β : Type} {x : Option α} {a : α} (h : x = some a) {f : α → Option β} :
    x >>= f = f a := by
  rw [h]
  rfl

/-- **What is written of a date and a time is read as them.** -/
theorem read_written {d : Date} {hour minute second nanos : Nat} (hmonth : d.month < 100)
    (hday : d.day < 100) (hhour : hour < 100) (hminute : minute < 100) (hsecond : second < 100)
    (hnanos : nanos < 1000000000) :
    read (written d hour minute second nanos) = ofLocal d hour minute second nanos 0 := by
  have hyear (rest : List Char) :
      readYear ((yearText d.year).toList ++ '-' :: rest) = some (d.year, '-' :: rest) :=
    readYear_yearText d.year (stops_cons.mpr rfl)
  have hdash (rest : List Char) : readMark '-' ('-' :: rest) = some rest := readMark_cons rfl rest
  have hcolon (rest : List Char) : readMark ':' (':' :: rest) = some rest := readMark_cons rfl rest
  have hnumber {n : Nat} (h : n < 100) (rest : List Char) :
      readNumber 2 ((padded 2 n).toList ++ rest) = some (n, rest) :=
    readNumber_padded h (by decide) rest
  rw [read, written]
  refine (bind_of_eq_some (hyear _)).trans ?_
  refine (bind_of_eq_some (hdash _)).trans ?_
  refine (bind_of_eq_some (hnumber hmonth _)).trans ?_
  refine (bind_of_eq_some (hdash _)).trans ?_
  refine (bind_of_eq_some (hnumber hday _)).trans ?_
  refine (bind_of_eq_some rfl).trans ?_
  refine (bind_of_eq_some (hnumber hhour _)).trans ?_
  refine (bind_of_eq_some (hcolon _)).trans ?_
  refine (bind_of_eq_some (hnumber hminute _)).trans ?_
  refine (bind_of_eq_some (hcolon _)).trans ?_
  refine (bind_of_eq_some (hnumber hsecond _)).trans ?_
  refine (bind_of_eq_some (readFraction_fractionText hnanos [])).trans ?_
  rfl

/-- The text of an instant is made up of its date and its time of day. -/
theorem toList_text (t : Instant) :
    t.text.toList =
      written (Date.ofDays (t.seconds / secondsPerDay)) ((t.seconds % secondsPerDay).toNat / 3600)
        ((t.seconds % secondsPerDay).toNat / 60 % 60)
        ((t.seconds % secondsPerDay).toNat % 60 + if 1000000000 ≤ t.nanos then 1 else 0)
        (t.nanos % 1000000000) := by
  simp [text, written]

/-- The years of instants are those between the first and the last one. -/
theorem year_bounds (t : Instant) :
    minYear ≤ (Date.ofDays (t.seconds / secondsPerDay)).year ∧
      (Date.ofDays (t.seconds / secondsPerDay)).year ≤ maxYear := by
  obtain ⟨hmin, hmax, -, -⟩ := (isInstant_iff _ _).mp t.isInstant_eq
  have hfirst : (Date.newYear minYear).toDays = -96465292 := by decide
  have hnext : (Date.newYear (maxYear + 1)).toDays = 95026237 := by decide
  simp only [minSeconds, maxSeconds] at hmin hmax
  constructor
  · rw [Date.le_year_ofDays_iff, hfirst, secondsPerDay]
    omega
  · rw [← Int.lt_add_one_iff, ← Int.not_le, Date.le_year_ofDays_iff, hnext, secondsPerDay]
    omega

/-- The date and the time of an instant are those of the instant. -/
theorem ofLocal_text (t : Instant) :
    ofLocal (Date.ofDays (t.seconds / secondsPerDay)) ((t.seconds % secondsPerDay).toNat / 3600)
      ((t.seconds % secondsPerDay).toNat / 60 % 60)
      ((t.seconds % secondsPerDay).toNat % 60 + if 1000000000 ≤ t.nanos then 1 else 0)
      (t.nanos % 1000000000) 0 = some t := by
  obtain ⟨-, -, hnanos, hleap⟩ := (isInstant_iff _ _).mp t.isInstant_eq
  obtain ⟨hfirst, hlast⟩ := year_bounds t
  have hvalid := Date.isValid_ofDays (t.seconds / secondsPerDay)
  have hdays := Date.toDays_ofDays (t.seconds / secondsPerDay)
  have hparts := ofParts?_parts t
  generalize Date.ofDays (t.seconds / secondsPerDay) = d at *
  simp only [secondsPerDay, nanosLimit] at *
  by_cases hn : 1000000000 ≤ t.nanos
  · obtain ⟨hminute, -⟩ := hleap hn
    have hsecond : (t.seconds % 86400).toNat % 60 + 1 = 60 := by omega
    have hseconds : d.toDays * 86400 + ((t.seconds % 86400).toNat / 3600 * 3600 +
        (t.seconds % 86400).toNat / 60 % 60 * 60 + 59 : Nat) - 0 = t.seconds := by omega
    have hrest : t.nanos % 1000000000 + 1000000000 = t.nanos := by omega
    rw [if_pos hn, hsecond, ofLocal, if_pos ⟨hvalid, hfirst, hlast, by omega, by omega, by decide,
      by decide, by decide⟩]
    simp only [secondsPerDay, if_true, hseconds, hrest, hparts]
  · have hsecond : ¬(t.seconds % 86400).toNat % 60 = 60 := by omega
    have hseconds : d.toDays * 86400 + ((t.seconds % 86400).toNat / 3600 * 3600 +
        (t.seconds % 86400).toNat / 60 % 60 * 60 + (t.seconds % 86400).toNat % 60 : Nat) - 0 =
          t.seconds := by omega
    have hrest : t.nanos % 1000000000 = t.nanos := by omega
    rw [if_neg hn, Nat.add_zero, ofLocal, if_pos ⟨hvalid, hfirst, hlast, by omega, by omega,
      by omega, by decide, by decide⟩]
    simp only [secondsPerDay, if_neg hsecond, hseconds, hrest, hparts]

/-- **An instant is read back from its text.** -/
@[simp] theorem ofText?_text (t : Instant) : ofText? t.text = some t := by
  obtain ⟨hmonth, -, hday⟩ := (Date.isValid_iff _).mp
    (Date.isValid_ofDays (t.seconds / secondsPerDay))
  have hlength := Date.monthLength_le (Date.ofDays (t.seconds / secondsPerDay)).year
    (Date.ofDays (t.seconds / secondsPerDay)).month
  have hseconds : 0 ≤ t.seconds % secondsPerDay ∧ t.seconds % secondsPerDay < 86400 :=
    ⟨Int.emod_nonneg _ (by decide), Int.emod_lt_of_pos _ (by decide)⟩
  rw [ofText?, toList_text, read_written (by omega) (by omega) (by omega) (by omega)
    (by split <;> omega) (by omega)]
  exact ofLocal_text t

end LintPatrol.Time.Instant
