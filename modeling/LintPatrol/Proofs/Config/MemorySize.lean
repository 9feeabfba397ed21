import Mathlib.Algebra.Group.Int.Defs
import Mathlib.Algebra.Group.Nat.Defs
import LintPatrol.Config.MemorySize
import LintPatrol.Proofs.Number.Decimal
import LintPatrol.Proofs.Text.Blank
import LintPatrol.Text.Utf8

/-!
# LintPatrol.Proofs.Config.MemorySize

The language of amounts of memory.  An `Amount` is one as it is written: a plus
sign perhaps, digits, white space perhaps, and one of the `units`.  Reading
looks for the unit first, at the end of the text (`splitUnit_append`), and for
the digits in what is in front of it (`readInt64_iff`); in small letters
both are the same, since digits and white space have none.

## Main statements

* `parse_eq_ok_iff`: what is read is just what is written as an amount.
* `parse_written`: an amount that is written without white space is read back.
* `sizes_read`: both of them, and that no text is cut within a character.
-/

namespace LintPatrol.MemorySize

open Text Number

/-! ## Amounts as they are written -/

/-- The units, and the bytes in each. -/
def units : List (List Char × Nat) :=
  [([], 1), (['b'], 1), (['B'], 1), (['k'], 1024), (['K'], 1024), (['m'], 1024 * 1024),
    (['M'], 1024 * 1024), (['g'], 1024 * 1024 * 1024), (['G'], 1024 * 1024 * 1024)]

/-- The number in an amount as it is written, with what stands between it and the unit. -/
structure Figure where
  sign : List Char
  digits : List Char
  gap : List Char
  sign_eq : sign = [] ∨ sign = ['+']
  digits_ne_nil : digits ≠ []
  isDigit_digits : ∀ c ∈ digits, c.isDigit = true
  isBlank_gap : ∀ c ∈ gap, isBlank c = true

namespace Figure

variable (f : Figure)

def text : List Char := f.sign ++ f.digits ++ f.gap

def value : Nat := Nat.ofDigitChars 10 f.digits 0

/-- Sign and digits lie between two characters, among which there is neither a letter nor white
space. -/
theorem between : ∀ c ∈ f.sign ++ f.digits, '+' ≤ c ∧ c ≤ '9' := by
  intro c hc
  rcases List.mem_append.mp hc with hc | hc
  · rcases f.sign_eq with hsign | hsign
    · simp [hsign] at hc
    · rw [hsign, List.mem_singleton] at hc
      rw [hc]
      decide
  · have hdigit := f.isDigit_digits c hc
    simp only [Char.isDigit, Bool.and_eq_true, decide_eq_true_eq] at hdigit
    exact ⟨UInt32.le_trans (by decide) hdigit.1, hdigit.2⟩

/-- Neither sign nor digits are white space. -/
theorem not_isBlank : ∀ c ∈ f.sign ++ f.digits, isBlank c = false := fun c hc =>
  isBlank_of_between '+' '9' (by decide) (f.between c hc)

/-- It does not begin with white space. -/
theorem not_isBlank_head : ∀ c ∈ f.text.head?, isBlank c = false := by
  intro c hc
  have hne : f.sign ++ f.digits ≠ [] := by simp [f.digits_ne_nil]
  obtain ⟨d, ds, hcons⟩ := List.exists_cons_of_ne_nil hne
  have hd := f.not_isBlank d (by simp [hcons])
  have hdc : d = c := by simpa [text, hcons] using hc
  rwa [← hdc]

end Figure

/-- An amount of memory as it is written. -/
structure Amount extends Figure where
  unit : List Char
  factor : Nat
  unit_mem : (unit, factor) ∈ units

def Amount.text (a : Amount) : List Char := a.toFigure.text ++ a.unit

def Amount.bytes (a : Amount) : Nat := a.value * a.factor

/-! ## Units -/

/-- A unit is one character at most, and of one byte at least. -/
theorem units_cases {unit : List Char} {factor : Nat} (h : (unit, factor) ∈ units) :
    0 < factor ∧ ((unit = [] ∧ factor = 1) ∨ ∃ c, unit = [c]) := by
  have hall : ∀ p ∈ units, 0 < p.2 ∧ ((p.1 = [] ∧ p.2 = 1) ∨ p.1.length = 1) := by decide
  simpa [List.length_eq_one_iff] using hall _ h

/-- The character of a unit can be no part of what is in front. -/
theorem units_char {c : Char} {factor : Nat} (h : ([c], factor) ∈ units) :
    isBlank c = false ∧ ¬('+' ≤ c ∧ c ≤ '9') := by
  have hall : ∀ p ∈ units,
      (p.1.all fun c => decide (isBlank c = false ∧ ¬('+' ≤ c ∧ c ≤ '9'))) = true := by decide
  exact of_decide_eq_true (List.all_eq_true.mp (hall _ h) c List.mem_cons_self)

/-- In small letters a unit is found in either case. -/
theorem unit?_asciiLower_iff {c : Char} {n : Int} :
    unit? (asciiLower c) = some n ↔ ∃ k : Nat, n = k ∧ ([c], k) ∈ units := by
  constructor
  · intro h
    unfold unit? at h
    split at h
    · next hk =>
      cases h
      rcases eq_or_eq_of_asciiLower hk with rfl | rfl <;> exact ⟨1024, rfl, by decide⟩
    · next hm =>
      cases h
      rcases eq_or_eq_of_asciiLower hm with rfl | rfl <;> exact ⟨1024 * 1024, rfl, by decide⟩
    · next hg =>
      cases h
      rcases eq_or_eq_of_asciiLower hg with rfl | rfl <;> exact ⟨1024 * 1024 * 1024, rfl, by decide⟩
    · next hb =>
      cases h
      rcases eq_or_eq_of_asciiLower hb with rfl | rfl <;> exact ⟨1, rfl, by decide⟩
    · cases h
  · rintro ⟨k, rfl, hmem⟩
    simp only [units, List.mem_cons, Prod.mk.injEq, List.cons.injEq, and_true,
      List.not_mem_nil, or_false, reduceCtorEq, false_and, false_or] at hmem
    rcases hmem with ⟨rfl, rfl⟩ | ⟨rfl, rfl⟩ | ⟨rfl, rfl⟩ | ⟨rfl, rfl⟩ | ⟨rfl, rfl⟩ | ⟨rfl, rfl⟩ |
      ⟨rfl, rfl⟩ | ⟨rfl, rfl⟩ <;> rfl

/-- A unit is cut off; where there is none no character at the end may be taken for one. -/
theorem splitUnit_append {front unit : List Char} {factor : Nat} (hunit : (unit, factor) ∈ units)
    (hfront : unit = [] → ∀ c ∈ front.getLast?, unit? (asciiLower c) = none) :
    splitUnit ((front ++ unit).map asciiLower) = (front.map asciiLower, (factor : Int)) := by
  obtain ⟨-, ⟨rfl, rfl⟩ | ⟨c, rfl⟩⟩ := units_cases hunit
  · have hnone : (front.getLast?.map asciiLower).bind unit? = none := by
      cases hlast : front.getLast? with
      | none => rfl
      | some c => exact hfront rfl c hlast
    simp [splitUnit, List.getLast?_map, hnone]
  · have hsome := unit?_asciiLower_iff.mpr ⟨factor, rfl, hunit⟩
    simp [splitUnit, hsome]

/-- Every text is cut into what is in front of its unit and the unit. -/
theorem exists_splitUnit (cs : List Char) :
    ∃ front unit factor, cs = front ++ unit ∧ (unit, factor) ∈ units ∧
      splitUnit (cs.map asciiLower) = (front.map asciiLower, (factor : Int)) := by
  have hnone : ([], 1) ∈ units := by decide
  rcases List.eq_nil_or_concat cs with rfl | ⟨front, c, rfl⟩
  · exact ⟨[], [], 1, rfl, hnone, rfl⟩
  · rw [List.concat_eq_append]
    cases hu : unit? (asciiLower c) with
    | none =>
      have hfront : [] = ([] : List Char) → ∀ d ∈ (front ++ [c]).getLast?,
          unit? (asciiLower d) = none := by simpa using hu
      have hsplit := splitUnit_append hnone hfront
      exact ⟨front ++ [c], [], 1, by simp, hnone, by simpa using hsplit⟩
    | some n =>
      obtain ⟨k, rfl, hunit⟩ := unit?_asciiLower_iff.mp hu
      exact ⟨front, [c], k, by simp, hunit, splitUnit_append hunit nofun⟩

/-- The unit of an amount is cut off. -/
theorem Amount.splitUnit_text (a : Amount) :
    splitUnit (a.text.map asciiLower) = (a.toFigure.text.map asciiLower, (a.factor : Int)) := by
  refine splitUnit_append a.unit_mem fun _ c hc => ?_
  cases hu : unit? (asciiLower c) with
  | none => rfl
  | some n =>
    -- a unit would be neither white space nor a part of the number
    obtain ⟨k, -, hunit⟩ := unit?_asciiLower_iff.mp hu
    obtain ⟨hblank, hbetween⟩ := units_char hunit
    rcases List.mem_append.mp (List.mem_of_getLast? hc) with hmem | hmem
    · exact absurd (a.between c hmem) hbetween
    · simp [a.isBlank_gap c hmem] at hblank

/-- What is in front of a unit is cut off in front of the last byte, where no character is cut. -/
theorem splitUnit_concat {c : Char} {n : Int} (h : unit? c = some n) (cs : List Char) :
    splitUnit (cs ++ [c]) = (cs, n) ∧
      Utf8.dropBytes? (Utf8.size (cs ++ [c]) - 1) (cs ++ [c]) = some [c] := by
  have hone : c.utf8Size = 1 := by
    unfold unit? at h
    split at h <;> first | rfl | cases h
  have hsize : Utf8.size (cs ++ [c]) - 1 = Utf8.size cs := by simp [hone]
  have hcut : splitUnit (cs ++ [c]) = (cs, n) := by simp [splitUnit, h]
  exact ⟨hcut, by rw [hsize, Utf8.dropBytes?_append]⟩

/-! ## Numbers -/

/-- What is in front of a unit is read just if it is a number as it is written. -/
theorem readInt64_iff {front : List Char} {n : Int}
    (hfront : ∀ c ∈ front.head?, isBlank c = false) (hn : 0 < n) :
    readInt64 (trim (front.map asciiLower)) = .ok n ↔
      ∃ f : Figure, front = f.text ∧ (f.value : Int) = n ∧ n ≤ maxInt64 := by
  rw [readInt64, readInteger_eq_ok_iff hn, trim_map_asciiLower]
  constructor
  · rintro ⟨sign, ds, htrim, hsign, hne, hds, hvalue, hle⟩
    let f : Figure := ⟨sign, ds, [], hsign, hne, hds, by simp⟩
    have hsmall : ∀ c ∈ sign ++ ds, ¬('a' ≤ c ∧ c ≤ 'z') := fun c hc hletter =>
      absurd (Char.le_trans hletter.1 (f.between c hc).2) (by decide)
    obtain ⟨before, gap, hcut, hbefore, hgap⟩ := exists_trim front
    rw [eq_of_map_asciiLower htrim hsmall] at hcut
    have hnil : before = [] := by
      cases before with
      | nil => rfl
      | cons b before =>
        have hblank := hbefore b List.mem_cons_self
        have hnot := hfront b (by simp [hcut])
        simp [hblank] at hnot
    exact ⟨{ f with gap := gap, isBlank_gap := hgap },
      by simpa [Figure.text, f, hnil] using hcut, hvalue, hle⟩
  · rintro ⟨f, rfl, hvalue, hle⟩
    have hlower : ∀ c ∈ f.sign ++ f.digits, asciiLower c = id c := fun c hc =>
      if_neg fun hcapital =>
        absurd (Char.le_trans hcapital.1 (f.between c hc).2) (by decide)
    have htrim : (trim f.text).map asciiLower = f.sign ++ f.digits := by
      rw [Figure.text, trim_append_blanks _ f.isBlank_gap, trim_eq_self f.not_isBlank,
        List.map_congr_left hlower, List.map_id]
    exact ⟨f.sign, f.digits, htrim, f.sign_eq, f.digits_ne_nil, f.isDigit_digits, hvalue, hle⟩

/-! ## Amounts as they are read -/

/-- An amount whose unit has been cut off is read as its number, and multiplied. -/
theorem parse_eq_ok_of_splitUnit {value : String} {front : List Char} {factor : Nat} {n : Int}
    (h : splitUnit ((trim value.toList).map asciiLower) = (front, (factor : Int)))
    (hfactor : 0 < factor) :
    parse value = .ok n ↔
      ∃ amount, 0 < amount ∧ readInt64 (trim front) = .ok amount ∧ amount * factor = n ∧
        n ≤ maxInt64 := by
  rw [parse, h]
  simp only
  cases hread : readInt64 (trim front) with
  | error e => simp
  | ok amount =>
    have hpos : 0 < amount * factor ↔ 0 < amount :=
      ⟨fun h => Int.pos_of_mul_pos_left h (by omega), fun h => Int.mul_pos h (by omega)⟩
    by_cases hbounds : 0 < amount * factor ∧ amount * factor ≤ maxInt64
    · simp only [hbounds, and_self, if_true, Except.ok.injEq]
      constructor
      · rintro rfl
        exact ⟨amount, hpos.mp hbounds.1, rfl, rfl, hbounds.2⟩
      · rintro ⟨_, -, rfl, hn, -⟩
        exact hn
    · simp only [hbounds, if_false, reduceCtorEq, false_iff]
      rintro ⟨_, hamount, ⟨⟩, rfl, hle⟩
      exact hbounds ⟨hpos.mpr hamount, hle⟩

/-- An amount is read just if it is written as one, and fits. -/
theorem parse_eq_ok_iff (value : String) (n : Int) :
    parse value = .ok n ↔
      ∃ a : Amount, trim value.toList = a.text ∧ (a.bytes : Int) = n ∧ 1 ≤ n ∧
        n ≤ 2 ^ 63 - 1 := by
  constructor
  · intro h
    obtain ⟨front, unit, factor, hcut, hunit, hsplit⟩ := exists_splitUnit (trim value.toList)
    obtain ⟨hfactor, -⟩ := units_cases hunit
    obtain ⟨amount, hamount, hread, rfl, hle⟩ :=
      (parse_eq_ok_of_splitUnit hsplit hfactor).mp h
    have hfront : ∀ c ∈ front.head?, isBlank c = false := by
      intro c hc
      obtain ⟨rest, rfl⟩ := List.head?_eq_some_iff.mp hc
      exact isBlank_of_trim_eq_cons hcut
    obtain ⟨f, rfl, rfl, -⟩ := (readInt64_iff hfront hamount).mp hread
    have hpos := Int.mul_pos hamount (Int.natCast_pos.mpr hfactor)
    exact ⟨⟨f, unit, factor, hunit⟩, hcut, rfl, hpos, hle⟩
  · rintro ⟨a, htext, rfl, hpos, hle⟩
    obtain ⟨hfactor, -⟩ := units_cases a.unit_mem
    have hsplit := a.splitUnit_text
    rw [← htext] at hsplit
    have hvalue : 0 < a.value := by
      refine Nat.pos_of_ne_zero fun hzero => ?_
      simp [Amount.bytes, hzero] at hpos
    have hle' : a.value ≤ a.bytes := Nat.le_mul_of_pos_right _ hfactor
    have hfits : (a.value : Int) ≤ maxInt64 := by
      simp only [maxInt64]
      omega
    have hread := (readInt64_iff a.not_isBlank_head (Int.natCast_pos.mpr hvalue)).mpr
      ⟨a.toFigure, rfl, rfl, hfits⟩
    exact (parse_eq_ok_of_splitUnit hsplit hfactor).mpr
      ⟨a.value, Int.natCast_pos.mpr hvalue, hread, rfl, hle⟩

/-- An amount that is written without white space is read back. -/
theorem parse_written {n factor : Nat} {unit : List Char} (hunit : (unit, factor) ∈ units)
    (hpos : 0 < n * factor) (hle : n * factor ≤ 2 ^ 63 - 1) :
    parse (toString n ++ String.ofList unit) = .ok ((n * factor : Nat) : Int) := by
  let f : Figure :=
    { sign := [], digits := Nat.toDigits 10 n, gap := [], sign_eq := .inl rfl
      digits_ne_nil := toDigits_ne_nil n
      isDigit_digits := fun c hc => Nat.isDigit_of_mem_toDigits (by decide) (by decide) hc
      isBlank_gap := by simp }
  have hvalue : f.value = n := Nat.ofDigitChars_ten_toDigits
  have htext : (toString n ++ String.ofList unit).toList = f.text ++ unit := by
    simp [f, Figure.text]
  have hblank : ∀ c ∈ f.text ++ unit, isBlank c = false := by
    intro c hc
    rcases List.mem_append.mp hc with hmem | hmem
    · exact f.not_isBlank c (by simpa [f, Figure.text] using hmem)
    · obtain ⟨-, ⟨rfl, -⟩ | ⟨d, rfl⟩⟩ := units_cases hunit
      · cases hmem
      · rw [List.mem_singleton.mp hmem]
        exact (units_char hunit).1
  refine (parse_eq_ok_iff _ _).mpr ⟨⟨f, unit, factor, hunit⟩, ?_, ?_, by omega, by omega⟩
  · rw [htext, trim_eq_self hblank]
    rfl
  · rw [Amount.bytes, hvalue]

/-- **An amount of memory is read just if it is written as one and its bytes fit**, and any other
text is an error; a text is never cut within a character.  So an amount that is written is read
back. -/
theorem sizes_read :
    (∀ value n, parse value = .ok n ↔
      ∃ a : Amount, trim value.toList = a.text ∧ (a.bytes : Int) = n ∧ 1 ≤ n ∧
        n ≤ 2 ^ 63 - 1) ∧
    (∀ value, (¬∃ a : Amount, trim value.toList = a.text ∧ 1 ≤ a.bytes ∧
        a.bytes ≤ 2 ^ 63 - 1) → ∃ e, parse value = .error e) ∧
    (∀ cs c n, unit? c = some n → splitUnit (cs ++ [c]) = (cs, n) ∧
      Utf8.dropBytes? (Utf8.size (cs ++ [c]) - 1) (cs ++ [c]) = some [c]) ∧
    ∀ n unit factor, (unit, factor) ∈ units → 0 < n * factor → n * factor ≤ 2 ^ 63 - 1 →
      parse (toString n ++ String.ofList unit) = .ok ((n * factor : Nat) : Int) := by
  refine ⟨parse_eq_ok_iff, fun value hnone => ?_, fun cs c n h => splitUnit_concat h cs,
    fun n unit factor hunit hpos hle => parse_written hunit hpos hle⟩
  cases hparse : parse value with
  | error e => exact ⟨e, rfl⟩
  | ok n =>
    obtain ⟨a, htext, rfl, hpos, hle⟩ := (parse_eq_ok_iff value n).mp hparse
    exact absurd ⟨a, htext, by omega, by omega⟩ hnone

/-- The most that can be written with the greatest unit, and an amount with all that may stand
between. -/
theorem sizes_read_spaced :
    parse (toString 8589934591 ++ String.ofList ['g']) = .ok 9223372035781033984 ∧
      parse "\u3000+08 M\n" = .ok 8388608 := by
  obtain ⟨hread, -, -, hwritten⟩ := sizes_read
  have hsize := hwritten 8589934591 ['g'] (1024 * 1024 * 1024) (by decide) (by decide) (by decide)
  refine ⟨hsize, (hread _ _).mpr ?_⟩
  let f : Figure :=
    ⟨['+'], ['0', '8'], [' '], .inr rfl, by decide, List.all_eq_true.mp rfl,
      List.all_eq_true.mp rfl⟩
  exact ⟨⟨f, ['M'], 1024 * 1024, by decide⟩, by decide, by decide, by decide, by decide⟩

end LintPatrol.MemorySize
