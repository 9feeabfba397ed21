import Mathlib.Data.List.TakeWhile
import LintPatrol.Proofs.Number.Decimal
import LintPatrol.Proofs.Number.Shortest
import LintPatrol.Proofs.Text.Split
import LintPatrol.Toml.Writer
import LintPatrol.Toml.Scalar

/-!
# LintPatrol.Proofs.Toml.Number

Numbers as they are written are read as the words that they are.  An integer is
digits, perhaps with a minus sign; a floating point number is digits on both
sides of a point, and it is the point by which it is told from an integer.

## Main statements

* `word?_toString`: an integer of 128 bits is read back.
* `word?_pointed`: so is a floating point number, if it is one.
-/

namespace LintPatrol.Toml

open Number Text

/-! ## Digits -/

def digitValue (c : Char) : Nat := c.toNat - '0'.toNat

theorem digitIn?_ten {c : Char} (h : c.isDigit = true) : digitIn? 10 c = some (digitValue c) := by
  have hbounds : '0' ≤ c ∧ c ≤ '9' := by simpa [Char.isDigit, Char.le_def] using h
  have hlt : c.toNat - '0'.toNat < 10 := by
    have : c.toNat ≤ '9'.toNat := hbounds.2
    simp only [Char.reduceToNat] at this ⊢
    omega
  rw [digitIn?, Json.hexDigit?, if_pos hbounds]
  exact if_pos hlt

theorem digits?_ten {cs : List Char} (hne : cs ≠ []) (h : ∀ c ∈ cs, c.isDigit = true) :
    digits? 10 cs = some (cs.map digitValue) := by
  induction cs with
  | nil => contradiction
  | cons c cs ih =>
    obtain ⟨hc, hcs⟩ := List.forall_mem_cons.mp h
    cases cs with
    | nil => simp [digits?, digitIn?_ten hc]
    | cons d cs =>
      have hd : d ≠ '_' := isDigit_ne (hcs d List.mem_cons_self) rfl
      simp [digits?, hd, digitIn?_ten hc, ih (List.cons_ne_nil d cs) hcs]

theorem ofDigits_map (cs : List Char) :
    ofDigits 10 (cs.map digitValue) = Nat.ofDigitChars 10 cs 0 := by
  rw [ofDigits, List.foldl_map, Nat.ofDigitChars]
  simp only [Nat.mul_comm, digitValue]

theorem eq_zero_of_digitValue {c : Char} (h : c.isDigit = true) (hc : digitValue c = 0) :
    c = '0' := by
  have hbounds : '0' ≤ c ∧ c ≤ '9' := by simpa [Char.isDigit, Char.le_def] using h
  have hge : '0'.toNat ≤ c.toNat := hbounds.1
  have hnat : c.toNat = '0'.toNat := by
    rw [digitValue] at hc
    omega
  rw [← Char.ofNat_toNat c, hnat]
  rfl

/-- Plain digits are read as they are. -/
theorem plainDigits?_of_isPlain {cs : List Char} (h : IsPlain cs) :
    plainDigits? cs = some (cs.map digitValue) := by
  rw [plainDigits?, digits?_ten h.ne_nil h.isDigit]
  obtain ⟨c, cs, rfl⟩ := List.exists_cons_of_ne_nil h.ne_nil
  cases cs with
  | nil => simp
  | cons d cs =>
    have hc : digitValue c ≠ 0 := fun hzero => by
      obtain rfl := eq_zero_of_digitValue (h.isDigit c List.mem_cons_self) hzero
      exact absurd (h.eq_zero rfl) (by simp)
    obtain ⟨k, hk⟩ := Nat.exists_eq_succ_of_ne_zero hc
    simp [hk]

/-! ## Integers -/

/-- A character that stands in no integer. -/
structure IsForeign (c : Char) : Prop where
  digit : Json.hexDigit? c = none
  other : c ∉ ['_', '0', 'x', 'o', 'b', '+', '-']

theorem digits?_of_foreign {base : Nat} {c : Char} (h : IsForeign c) {cs : List Char}
    (hc : c ∈ cs) :
    digits? base cs = none := by
  have hdigit : digitIn? base c = none := by rw [digitIn?, h.digit]; rfl
  have hbar : c ≠ '_' := fun heq => h.other (by simp [heq])
  fun_induction digits? base cs with
  | case1 => cases hc
  | case2 d =>
    obtain rfl := List.mem_singleton.mp hc
    rw [hdigit]
    rfl
  | case3 d cs ih =>
    rcases List.mem_cons.mp hc with rfl | hc
    · rw [hdigit]
      rfl
    · rw [ih ((List.mem_cons.mp hc).resolve_left hbar)]
      cases digitIn? base d <;> rfl
  | case4 d cs _ _ ih =>
    rcases List.mem_cons.mp hc with rfl | hc
    · rw [hdigit]
      rfl
    · rw [ih hc]
      cases digitIn? base d <;> rfl

theorem plainDigits?_of_foreign {c : Char} (h : IsForeign c) {cs : List Char} (hc : c ∈ cs) :
    plainDigits? cs = none := by
  rw [plainDigits?, digits?_of_foreign h hc]

/-- With a foreign character it is no integer. -/
theorem anyInteger?_of_foreign {c : Char} (h : IsForeign c) {cs : List Char} (hc : c ∈ cs) :
    anyInteger? cs = none := by
  have hne : ∀ d ∈ ['_', '0', 'x', 'o', 'b', '+', '-'], c ≠ d := fun d hd heq => h.other (heq ▸ hd)
  have hbase : ∀ d, c ≠ d → ∀ cs base, c ∈ '0' :: d :: cs → digits? base cs = none := by
    intro d hd cs base hmem
    have hmem' := (List.mem_cons.mp hmem).resolve_left (hne '0' (by simp))
    exact digits?_of_foreign h ((List.mem_cons.mp hmem').resolve_left hd)
  unfold anyInteger?
  split
  · rw [hbase 'x' (hne 'x' (by simp)) _ 16 hc]
    rfl
  · rw [hbase 'o' (hne 'o' (by simp)) _ 8 hc]
    rfl
  · rw [hbase 'b' (hne 'b' (by simp)) _ 2 hc]
    rfl
  · have hsign : c ∈ (sign? cs).2 := by
      unfold sign?
      split
      · exact (List.mem_cons.mp hc).resolve_left (hne '-' (by simp))
      · exact (List.mem_cons.mp hc).resolve_left (hne '+' (by simp))
      · exact hc
    simp only [plainDigits?_of_foreign h hsign, Option.map_none]

theorem sign?_of_isPlain {cs : List Char} (h : IsPlain cs) : sign? cs = (none, cs) := by
  unfold sign?
  split
  · exact absurd (h.isDigit '-' List.mem_cons_self) (by decide)
  · exact absurd (h.isDigit '+' List.mem_cons_self) (by decide)
  · rfl

/-- Plain digits are read as their number. -/
theorem anyInteger?_of_isPlain {cs : List Char} (h : IsPlain cs) :
    anyInteger? cs = some (Nat.ofDigitChars 10 cs 0 : Int) := by
  have hsecond : ∀ d ds, d.isDigit = false → cs ≠ '0' :: d :: ds := by
    rintro d ds hd rfl
    rw [h.isDigit d (by simp)] at hd
    cases hd
  unfold anyInteger?
  split
  · exact absurd rfl (hsecond 'x' _ rfl)
  · exact absurd rfl (hsecond 'o' _ rfl)
  · exact absurd rfl (hsecond 'b' _ rfl)
  · simp [sign?_of_isPlain h, plainDigits?_of_isPlain h, ofDigits_map]

/-- With a minus sign they are read as its negative. -/
theorem anyInteger?_minus {cs : List Char} (h : IsPlain cs) :
    anyInteger? ('-' :: cs) = some (-(Nat.ofDigitChars 10 cs 0 : Int)) := by
  simp [anyInteger?, sign?, plainDigits?_of_isPlain h, ofDigits_map]

/-- An integer is read as it is written. -/
theorem anyInteger?_toString (n : Int) : anyInteger? (toString n).toList = some n := by
  have hplain := isPlain_toDigits n.natAbs
  rw [toList_toString_int]
  split
  · rw [anyInteger?_minus hplain, Nat.ofDigitChars_ten_toDigits]
    congr 1
    omega
  · rw [anyInteger?_of_isPlain hplain, Nat.ofDigitChars_ten_toDigits]
    congr 1
    omega

/-- **An integer of 128 bits is read back.** -/
theorem word?_toString {n : Int} (hlow : -(twoTo 127 : Int) ≤ n) (hhigh : n < twoTo 128) :
    word? (toString n).toList = some (.integer n) := by
  have hany := anyInteger?_toString n
  have hinteger : integer? (toString n).toList = some n := by
    rw [integer?, hany]
    exact if_pos ⟨hlow, hhigh⟩
  have htrue : (toString n).toList ≠ ['t', 'r', 'u', 'e'] := fun h => by
    rw [h] at hany
    cases hany
  have hfalse : (toString n).toList ≠ ['f', 'a', 'l', 's', 'e'] := fun h => by
    rw [h] at hany
    cases hany
  rw [word?, if_neg htrue, if_neg hfalse, hany]
  show (integer? _).map Toml.integer = _
  rw [hinteger]
  rfl

/-! ## Digits on both sides of a point -/

/-- The text is digits on both sides of a point that write the number `x`. -/
structure Writes (cs whole part : List Char) (x : ℚ) : Prop where
  eq : cs = whole ++ '.' :: part
  isPlain_whole : IsPlain whole
  part_ne_nil : part ≠ []
  isDigit_part : ∀ c ∈ part, c.isDigit = true
  value : (Nat.ofDigitChars 10 (whole ++ part) 0 : ℚ) * 10 ^ (-(part.length : Int)) = x

/-- Digits with a point before the last `k` of them, zeros being put in front if there
are too few. -/
theorem writes_cut {ds : List Char} (h : IsPlain ds) {k : Nat} (hk : 0 < k) :
    let padded := List.replicate (k + 1 - ds.length) '0' ++ ds
    let cut := padded.length - k
    Writes (padded.take cut ++ '.' :: padded.drop cut) (padded.take cut) (padded.drop cut)
      (Nat.ofDigitChars 10 ds 0 * 10 ^ (-(k : Int))) := by
  intro padded cut
  have hlength : padded.length = k + 1 - ds.length + ds.length := by simp [padded]
  have hcut : 0 < cut := by simp only [cut]; omega
  have hdrop : (padded.drop cut).length = k := by
    rw [List.length_drop]
    omega
  have hdigit : ∀ c ∈ padded, c.isDigit = true := by
    intro c hc
    rcases List.mem_append.mp hc with hc | hc
    · rw [List.eq_of_mem_replicate hc]
      rfl
    · exact h.isDigit c hc
  have hvalue : Nat.ofDigitChars 10 padded 0 = Nat.ofDigitChars 10 ds 0 := by
    rw [Nat.ofDigitChars_append, ofDigitChars_zeros, Nat.zero_mul]
  refine ⟨rfl, ⟨?_, fun c hc => hdigit c (List.mem_of_mem_take hc), ?_⟩, ?_,
    fun c hc => hdigit c (List.mem_of_mem_drop hc), ?_⟩
  · refine List.ne_nil_of_length_pos ?_
    rw [List.length_take]
    omega
  · intro hhead
    by_cases hshort : ds.length ≤ k
    · have hone : cut = 1 := by simp only [cut]; omega
      have hfirst : k + 1 - ds.length = k - ds.length + 1 := by omega
      rw [hone]
      simp [padded, hfirst, List.replicate_succ]
    · have hnone : k + 1 - ds.length = 0 := by omega
      have hsame : padded = ds := by simp [padded, hnone]
      rw [hsame, List.head?_take, if_neg hcut.ne'] at hhead
      rw [h.eq_zero hhead] at hshort
      simp only [List.length_singleton] at hshort
      omega
  · refine List.ne_nil_of_length_pos ?_
    omega
  · rw [List.take_append_drop, hvalue, hdrop]

/-- Digits with zeros behind them, and a zero behind the point. -/
theorem writes_zeros {ds : List Char} (h : IsPlain ds) {k : Nat} (hk : ds = ['0'] → k = 0) :
    Writes (ds ++ List.replicate k '0' ++ ['.', '0']) (ds ++ List.replicate k '0') ['0']
      (Nat.ofDigitChars 10 ds 0 * 10 ^ (k : Int)) := by
  refine ⟨by simp, ⟨by simp [h.ne_nil], ?_, ?_⟩, by simp, by simp, ?_⟩
  · intro c hc
    rcases List.mem_append.mp hc with hc | hc
    · exact h.isDigit c hc
    · rw [List.eq_of_mem_replicate hc]
      rfl
  · intro hhead
    rw [List.head?_append_of_ne_nil _ h.ne_nil] at hhead
    have hds := h.eq_zero hhead
    rw [hk hds, hds]
    rfl
  · rw [List.append_assoc, ← List.replicate_succ', Nat.ofDigitChars_append, ofDigitChars_zeros]
    push_cast
    rw [List.length_singleton, pow_succ, zpow_natCast]
    norm_num
    ring

/-- The text of `d · 10 ^ e`. -/
theorem exists_writes (d : Nat) {e : Int} (h : 0 < d ∨ e = 0) :
    ∃ whole part, Writes (Shortest.positional 1 d e).toList whole part (d * 10 ^ e) := by
  have hplain := isPlain_toDigits d
  have htext : (toString d).toList = Nat.toDigits 10 d := String.toList_ofList
  have hvalue : Nat.ofDigitChars 10 (Nat.toDigits 10 d) 0 = d := Nat.ofDigitChars_ten_toDigits
  unfold Shortest.positional
  simp only [htext]
  generalize Nat.toDigits 10 d = ds at hplain hvalue
  split
  · next he =>
    have hzero : ds = ['0'] → e.toNat = 0 := by
      rintro rfl
      have hd : d = 0 := hvalue.symm
      omega
    have hwrites := writes_zeros hplain hzero
    rw [hvalue, Int.toNat_of_nonneg he] at hwrites
    exact ⟨_, _, by simpa using hwrites⟩
  · next he =>
    have hk : 0 < (-e).toNat := by omega
    have hwrites := writes_cut hplain hk
    have hexp : -((-e).toNat : Int) = e := by omega
    rw [hvalue, hexp] at hwrites
    exact ⟨_, _, by simpa using hwrites⟩

/-! ## Floating point numbers -/

/-- A text with a sign in front, if it is negative. -/
def signed (negative : Bool) (cs : List Char) : List Char := if negative then '-' :: cs else cs

namespace Writes

variable {cs whole part : List Char} {x : ℚ}

theorem point_mem (h : Writes cs whole part x) : '.' ∈ cs := by simp [h.eq]

theorem mem (h : Writes cs whole part x) {c : Char} (hc : c ∈ cs) : c.isDigit = true ∨ c = '.' := by
  rw [h.eq, List.mem_append, List.mem_cons] at hc
  rcases hc with hc | hc | hc
  · exact .inl (h.isPlain_whole.isDigit c hc)
  · exact .inr hc
  · exact .inl (h.isDigit_part c hc)

theorem not_mem (h : Writes cs whole part x) {c : Char} (hdigit : c.isDigit = false)
    (hpoint : c ≠ '.') : c ∉ cs := fun hc => by
  rcases h.mem hc with hc | hc
  · rw [hc] at hdigit
    cases hdigit
  · exact hpoint hc

theorem sign?_signed (h : Writes cs whole part x) (negative : Bool) :
    sign? (signed negative cs) = (if negative then some true else none, cs) := by
  cases negative with
  | true => rfl
  | false =>
    have hminus : '-' ∉ cs := h.not_mem rfl (by decide)
    have hplus : '+' ∉ cs := h.not_mem rfl (by decide)
    show sign? cs = (none, cs)
    unfold sign?
    split
    · exact absurd List.mem_cons_self hminus
    · exact absurd List.mem_cons_self hplus
    · rfl

/-- A pointed number has no exponent to be cut off. -/
theorem cutExponent_eq (h : Writes cs whole part x) : cutExponent cs = (cs, none) := by
  have hsmall : 'e' ∉ cs := h.not_mem rfl (by decide)
  have hcapital : 'E' ∉ cs := h.not_mem rfl (by decide)
  have htake : cs.takeWhile (fun c => !(decide (c = 'e') || decide (c = 'E'))) = cs := by
    refine List.takeWhile_eq_self_iff.mpr fun c hc => ?_
    have hc₁ : c ≠ 'e' := fun heq => hsmall (heq ▸ hc)
    have hc₂ : c ≠ 'E' := fun heq => hcapital (heq ▸ hc)
    simp [hc₁, hc₂]
  simp only [cutExponent, htake, List.drop_length]

/-- It is cut at its point. -/
theorem cutAt_eq (h : Writes cs whole part x) : cutAt ['.'] cs = some (whole, part) := by
  have hpoint : '.' ∉ whole := fun hc => absurd (h.isPlain_whole.isDigit '.' hc) (by decide)
  rw [h.eq]
  exact cutAt_append hpoint [] part

/-- Digits on both sides of a point are read as the number nearest to what they
write. -/
theorem fraction?_signed (h : Writes cs whole part x) {negative : Bool} {y : Binary64}
    (hy : .ofDecimal negative (Nat.ofDigitChars 10 (whole ++ part) 0) (-part.length) = y)
    (hfinite : ∀ s, y.view ≠ .infinite s) : fraction? (signed negative cs) = some y := by
  have hdigits := digits?_ten h.part_ne_nil h.isDigit_part
  have hwhole := plainDigits?_of_isPlain h.isPlain_whole
  have hvalue : ofDigits 10 (whole.map digitValue ++ part.map digitValue) =
      Nat.ofDigitChars 10 (whole ++ part) 0 := by rw [← List.map_append, ofDigits_map]
  simp [fraction?, h.sign?_signed, h.cutExponent_eq, h.cutAt_eq, hdigits, hwhole, hvalue, hy]

/-- It is the point that tells them from an integer and from a truth value. -/
theorem word?_signed (h : Writes cs whole part x) {negative : Bool} {y : Binary64}
    (hfraction : fraction? (signed negative cs) = some y) :
    word? (signed negative cs) = some (.float y) := by
  have hpoint : '.' ∈ signed negative cs := by
    cases negative with
    | true => exact List.mem_cons_of_mem '-' h.point_mem
    | false => exact h.point_mem
  have hforeign : IsForeign '.' := ⟨by decide, by decide⟩
  have hne : ∀ word : List Char, '.' ∉ word → signed negative cs ≠ word := fun word hword heq =>
    hword (heq ▸ hpoint)
  have hrest : ∀ word : List Char, '.' ∉ word → cs ≠ word := fun word hword heq =>
    hword (heq ▸ h.point_mem)
  have hfloat : float? (signed negative cs) = some y := by
    rw [float?, h.sign?_signed]
    simp only [if_neg (hrest ['i', 'n', 'f'] (by decide)),
      if_neg (hrest ['n', 'a', 'n'] (by decide)), hfraction]
  rw [word?, if_neg (hne _ (by decide)), if_neg (hne _ (by decide)),
    anyInteger?_of_foreign hforeign hpoint, hfloat]

end Writes

/-- The text of a finite number is digits on both sides of a point, and what they write
is nearest to no other number. -/
theorem exists_writes_finiteText {m : Nat} {q : Int} (h : Binary64.Canonical m q)
    (negative : Bool) :
    ∃ cs whole part x, (Shortest.finiteText 1 negative m q).toList = signed negative cs ∧
      Writes cs whole part x ∧ ∀ (d : Nat) (e : Int), d * 10 ^ e = x →
        Binary64.ofDecimal negative d e = Binary64.withSign negative (Binary64.pack m q) := by
  have hsign : ∀ s : String, ((if negative then "-" else "") ++ s).toList =
      signed negative s.toList := fun s => by
    cases negative <;> simp [signed]
  unfold Shortest.finiteText
  simp only
  split
  · next hm =>
    subst hm
    obtain ⟨whole, part, hwrites⟩ := exists_writes 0 (.inr rfl)
    refine ⟨_, whole, part, _, hsign _, hwrites, fun d e hvalue => ?_⟩
    have hd : d = 0 := by simpa [zpow_ne_zero] using hvalue
    have hq : q = Binary64.minExponent := h.above.resolve_right (by decide)
    simp [hd, hq, Binary64.ofDecimal, Binary64.pack]
  · next hm =>
    have hpos : 0 < m := Nat.pos_of_ne_zero hm
    have hholds := Shortest.digits_holds h hpos
    have hdigits : 0 < (Shortest.digits m q).1 :=
      Nat.pos_of_ne_zero (Shortest.Interval.Holds.digits_ne_zero hholds hpos)
    obtain ⟨whole, part, hwrites⟩ := exists_writes (Shortest.digits m q).1 (.inl hdigits)
    refine ⟨_, whole, part, _, hsign _, hwrites, fun d e hvalue => ?_⟩
    rw [← hvalue] at hholds
    exact Shortest.ofDecimal_of_holds (i := ⟨m, q⟩) h hpos negative hholds

/-- **A floating point number is read back**, if it is one. -/
theorem word?_pointed (x : Binary64) : word? x.pointed.toList = some (.float x.quiet) := by
  unfold Binary64.pointed Binary64.quiet
  split
  · next negative hview =>
    rw [hview]
    cases negative <;> rfl
  · next negative hview =>
    rw [hview, Binary64.eq_of_view_infinite hview]
    cases negative <;> rfl
  · next negative m q hview =>
    -- Whichever digits the text has, they write a decimal that is nearest to the number.
    obtain ⟨hcanonical, hx⟩ := Binary64.eq_of_view_finite hview
    obtain ⟨cs, whole, part, y, htext, hwrites, hnearest⟩ :=
      exists_writes_finiteText hcanonical negative
    rw [htext, hview]
    have hvalue := hnearest _ _ hwrites.value
    rw [← hx] at hvalue
    exact hwrites.word?_signed (hwrites.fraction?_signed hvalue (by simp [hview]))

/-! ## Words in front -/

theorem isWordChar_of_isDigit {c : Char} (h : c.isDigit = true) : isWordChar c = true := by
  have hbounds : '0' ≤ c ∧ c ≤ '9' := by simpa [Char.isDigit, Char.le_def] using h
  simp [isWordChar, hbounds]

theorem isWordChar_toString (n : Int) : ∀ c ∈ (toString n).toList, isWordChar c = true := by
  have hdigits : ∀ c ∈ Nat.toDigits 10 n.natAbs, isWordChar c = true := fun c hc =>
    isWordChar_of_isDigit ((isPlain_toDigits n.natAbs).isDigit c hc)
  rw [toList_toString_int]
  split
  · exact List.forall_mem_cons.mpr ⟨rfl, hdigits⟩
  · exact hdigits

theorem isWordChar_pointed (x : Binary64) : ∀ c ∈ x.pointed.toList, isWordChar c = true := by
  unfold Binary64.pointed
  split
  · next negative _ => exact List.all_eq_true.mp (by cases negative <;> rfl)
  · next negative _ => exact List.all_eq_true.mp (by cases negative <;> rfl)
  · next negative m q hview =>
    obtain ⟨hcanonical, -⟩ := Binary64.eq_of_view_finite hview
    obtain ⟨cs, whole, part, y, htext, hwrites, -⟩ := exists_writes_finiteText hcanonical negative
    have hchars : ∀ c ∈ cs, isWordChar c = true := by
      intro c hc
      rcases hwrites.mem hc with hdigit | rfl
      · exact isWordChar_of_isDigit hdigit
      · rfl
    rw [htext]
    cases negative with
    | true => exact List.forall_mem_cons.mpr ⟨rfl, hchars⟩
    | false => exact hchars

/-- A word ends where the line ends. -/
theorem spanWord_append {w : List Char} (h : ∀ c ∈ w, isWordChar c = true) (rest : List Char) :
    spanWord (w ++ '\n' :: rest) = (w, '\n' :: rest) := by
  have htake : (w ++ '\n' :: rest).takeWhile isWordChar = w := by
    rw [List.takeWhile_append_of_pos h, List.takeWhile_cons_of_neg (by decide), List.append_nil]
  simp only [spanWord, htake, List.drop_left]
  split
  · next heq => cases heq
  · rfl

end LintPatrol.Toml
