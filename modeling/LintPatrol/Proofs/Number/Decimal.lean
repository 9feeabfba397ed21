import Mathlib.Algebra.Group.Nat.Defs
import LintPatrol.Number.Integer

/-!
# LintPatrol.Proofs.Number.Decimal

A number that is written in decimal is read back, if it lies within the bounds:
`readUInt64_toString` for unsigned numbers of 64 bits.  It rests on
`readDigits_toDigits`, where digits are read that more of them may follow.  The
other way round, what is read as a positive number is digits that write it, and
a plus sign perhaps (`readInteger_eq_ok_iff`).  For other readers of numbers
there is what they need of the text: its digits begin with no zero
(`isPlain_toDigits`), and zeros in front do not count (`ofDigitChars_zeros`).
-/

namespace LintPatrol.Number

/-! ## Digits -/

/-- A digit has its value. -/
theorem digit?_digitChar {d : Nat} (h : d < 10) : digit? d.digitChar = some d := by
  have hall : ∀ d : Fin 10, digit? d.val.digitChar = some d.val := by decide
  exact hall ⟨d, h⟩

/-- What has a value is a digit. -/
theorem isDigit_digitChar {d : Nat} (h : d < 10) : '0' ≤ d.digitChar ∧ d.digitChar ≤ '9' := by
  have hall : ∀ d : Fin 10, '0' ≤ d.val.digitChar ∧ d.val.digitChar ≤ '9' := by decide
  exact hall ⟨d, h⟩

/-- The last digit of a number stands behind those of the rest. -/
theorem toDigits_of_le {n : Nat} (h : 10 ≤ n) :
    Nat.toDigits 10 n = Nat.toDigits 10 (n / 10) ++ [(n % 10).digitChar] := by
  have hd : n % 10 < 10 := Nat.mod_lt n (by decide)
  rw [← Nat.toDigits_of_lt_base hd,
    Nat.toDigits_append_toDigits (by decide) (by omega) hd, Nat.div_add_mod]

/-- A number in decimal is digits only. -/
theorem isDigit_of_mem_toDigits {n : Nat} {c : Char} (h : c ∈ Nat.toDigits 10 n) :
    '0' ≤ c ∧ c ≤ '9' := by
  induction n using Nat.strongRecOn with
  | _ n ih =>
    rcases Nat.lt_or_ge n 10 with hn | hn
    · rw [Nat.toDigits_of_lt_base hn, List.mem_singleton] at h
      subst h
      exact isDigit_digitChar hn
    · rw [toDigits_of_le hn, List.mem_append, List.mem_singleton] at h
      rcases h with h | rfl
      · exact ih (n / 10) (by omega) h
      · exact isDigit_digitChar (Nat.mod_lt n (by decide))

theorem digit?_eq_some_iff {c : Char} {d : Nat} :
    digit? c = some d ↔ c.isDigit = true ∧ c.toNat - '0'.toNat = d := by
  have hdigit : c.isDigit = true ↔ '0' ≤ c ∧ c ≤ '9' := by
    simp [Char.isDigit, Char.le_def]
  rw [hdigit]
  simp [digit?]

theorem digit?_eq_none_iff {c : Char} : digit? c = none ↔ c.isDigit = false := by
  cases hd : digit? c with
  | none =>
    cases hc : c.isDigit with
    | false => simp
    | true => simp [digit?_eq_some_iff.mpr ⟨hc, rfl⟩] at hd
  | some d => simp [(digit?_eq_some_iff.mp hd).1]

/-- Digits are read just if they write a number within the limit. -/
theorem readDigits_eq_ok_iff {limit acc n : Nat} {excess : IntegerError} {ds : List Char}
    (hacc : acc ≤ limit) :
    readDigits limit excess acc ds = .ok n ↔
      (∀ c ∈ ds, c.isDigit = true) ∧ Nat.ofDigitChars 10 ds acc = n ∧ n ≤ limit := by
  induction ds generalizing acc with
  | nil =>
    have hle : acc = n → n ≤ limit := fun h => h ▸ hacc
    simpa [readDigits] using hle
  | cons c ds ih =>
    rw [readDigits, Nat.ofDigitChars_cons, Nat.mul_comm 10 acc]
    cases hd : digit? c with
    | none => simp [digit?_eq_none_iff.mp hd]
    | some d =>
      obtain ⟨hc, rfl⟩ := digit?_eq_some_iff.mp hd
      simp only [List.forall_mem_cons, hc, true_and]
      generalize acc * 10 + (c.toNat - '0'.toNat) = acc'
      by_cases hlt : limit < acc'
      · have hvalue : Nat.ofDigitChars 10 ds acc' =
            10 ^ ds.length * acc' + Nat.ofDigitChars 10 ds 0 :=
          Nat.ofDigitChars_eq_ofDigitChars_zero
        have hle : acc' ≤ 10 ^ ds.length * acc' :=
          Nat.le_mul_of_pos_left _ (Nat.pow_pos (by decide))
        have hn : ¬(Nat.ofDigitChars 10 ds acc' = n ∧ n ≤ limit) := by omega
        simp [hlt, hn]
      · simp [hlt, ih (Nat.not_lt.mp hlt)]

theorem isDigit_ne {c d : Char} (h : c.isDigit = true) (hd : d.isDigit = false) : c ≠ d := by
  rintro rfl
  rw [h] at hd
  cases hd

/-- What stands behind a number does not begin with a digit. -/
def Stops (rest : List Char) : Prop := ∀ c ∈ rest.head?, c.isDigit = false

@[simp] theorem stops_cons {c : Char} {rest : List Char} :
    Stops (c :: rest) ↔ c.isDigit = false := by
  simp [Stops]

theorem Stops.takeWhile_digit? {rest : List Char} (h : Stops rest) :
    rest.takeWhile (fun c => (digit? c).isSome) = [] := by
  cases rest with
  | nil => rfl
  | cons c rest => simp [digit?_eq_none_iff.mpr (h c rfl)]

theorem Stops.dropWhile_digit? {rest : List Char} (h : Stops rest) :
    rest.dropWhile (fun c => (digit? c).isSome) = rest := by
  cases rest with
  | nil => rfl
  | cons c rest => simp [digit?_eq_none_iff.mpr (h c rfl)]

theorem toDigits_ne_nil (n : Nat) : Nat.toDigits 10 n ≠ [] :=
  List.ne_nil_of_length_pos Nat.length_toDigits_pos

/-- The text of a number begins with a digit. -/
theorem exists_toDigits_cons (n : Nat) :
    ∃ d ds, Nat.toDigits 10 n = d :: ds ∧ d.isDigit = true := by
  obtain ⟨d, ds, hds⟩ := List.exists_cons_of_ne_nil (toDigits_ne_nil n)
  have hd : d ∈ Nat.toDigits 10 n := hds ▸ List.mem_cons_self
  exact ⟨d, ds, hds, Nat.isDigit_of_mem_toDigits (by decide) (by decide) hd⟩

/-- The digits of a number in front of others are read as that number. -/
theorem readDigits_toDigits {limit n : Nat} (hn : n ≤ limit) (excess : IntegerError)
    (cs : List Char) :
    readDigits limit excess 0 (Nat.toDigits 10 n ++ cs) = readDigits limit excess n cs := by
  induction n using Nat.strongRecOn generalizing cs with
  | _ n ih =>
    rcases Nat.lt_or_ge n 10 with hlt | hge
    · rw [Nat.toDigits_of_lt_base hlt, List.singleton_append, readDigits, digit?_digitChar hlt]
      simp only [Nat.zero_mul, Nat.zero_add, Nat.not_lt.mpr hn, if_false]
    · have hd : n % 10 < 10 := Nat.mod_lt n (by decide)
      have hvalue : n / 10 * 10 + n % 10 = n := by omega
      rw [toDigits_of_le hge, List.append_assoc, ih (n / 10) (by omega) (by omega),
        List.singleton_append, readDigits, digit?_digitChar hd]
      simp only [hvalue, Nat.not_lt.mpr hn, if_false]

/-- Decimal digits without a zero in front of others. -/
structure IsPlain (cs : List Char) : Prop where
  ne_nil : cs ≠ []
  isDigit : ∀ c ∈ cs, c.isDigit = true
  eq_zero : cs.head? = some '0' → cs = ['0']

/-- A number is written without a leading zero. -/
theorem isPlain_toDigits (n : Nat) : IsPlain (Nat.toDigits 10 n) := by
  refine ⟨toDigits_ne_nil n, fun c hc => Nat.isDigit_of_mem_toDigits (by decide) (by decide) hc, ?_⟩
  induction n using Nat.strongRecOn with
  | _ n ih =>
    rcases Nat.lt_or_ge n 10 with hlt | hge
    · rw [Nat.toDigits_of_lt_base hlt]
      intro h
      simpa using h
    · obtain ⟨d, ds, hds⟩ := List.exists_cons_of_ne_nil (toDigits_ne_nil (n / 10))
      have hhead : (Nat.toDigits 10 n).head? = (Nat.toDigits 10 (n / 10)).head? := by
        rw [toDigits_of_le hge, hds]
        rfl
      rw [hhead, toDigits_of_le hge]
      intro h
      have hzero : n / 10 = 0 := by
        rw [← Nat.ofDigitChars_ten_toDigits (n := n / 10), ih (n / 10) (by omega) h]
        rfl
      omega

/-- Zeros in front of a number count for nothing. -/
theorem ofDigitChars_zeros (k acc : Nat) :
    Nat.ofDigitChars 10 (List.replicate k '0') acc = acc * 10 ^ k := by
  induction k generalizing acc with
  | zero => simp [Nat.ofDigitChars]
  | succ k ih =>
    have hstep : 10 * acc + ('0'.toNat - '0'.toNat) = acc * 10 := by omega
    rw [List.replicate_succ, Nat.ofDigitChars_cons, hstep, ih, Nat.pow_succ, Nat.mul_assoc,
      Nat.mul_comm 10]

/-! ## Numbers -/

/-- A word is written with the digits of its number. -/
theorem toList_toString (n : UInt64) : (toString n).toList = Nat.toDigits 10 n.toNat :=
  String.toList_ofList

/-- The text of an integer. -/
theorem toList_toString_int (n : Int) :
    (toString n).toList =
      if n < 0 then '-' :: Nat.toDigits 10 n.natAbs else Nat.toDigits 10 n.natAbs := by
  cases n with
  | ofNat n =>
    have hnot : ¬Int.ofNat n < 0 := by simp
    rw [if_neg hnot]
    exact String.toList_ofList
  | negSucc n =>
    have hneg : Int.negSucc n < 0 := Int.negSucc_lt_zero n
    have htext : toString (Int.negSucc n) = "-" ++ String.ofList (Nat.toDigits 10 (n + 1)) := rfl
    rw [if_pos hneg, htext, String.toList_append, String.toList_ofList, String.toList_ofList]
    rfl

/-- A text without a sign is read as its digits. -/
theorem readInteger_of_unsigned {lo hi : Int} {cs : List Char} (hne : cs ≠ []) (hplus : '+' ∉ cs)
    (hminus : '-' ∉ cs) :
    readInteger lo hi cs = (readDigits hi.toNat .tooLarge 0 cs).map Int.ofNat := by
  unfold readInteger
  split
  · contradiction
  · exact absurd List.mem_cons_self hplus
  · exact absurd List.mem_cons_self hminus
  · exact absurd List.mem_cons_self hplus
  · exact absurd List.mem_cons_self hminus
  · rfl

/-- The digits of a positive number. -/
theorem map_readDigits_eq_ok_iff {hi n : Int} {ds : List Char} (hn : 0 < n) :
    (readDigits hi.toNat .tooLarge 0 ds).map Int.ofNat = .ok n ↔
      (∀ c ∈ ds, c.isDigit = true) ∧ (Nat.ofDigitChars 10 ds 0 : Int) = n ∧ n ≤ hi := by
  have hmap : (readDigits hi.toNat .tooLarge 0 ds).map Int.ofNat = .ok n ↔
      readDigits hi.toNat .tooLarge 0 ds = .ok n.toNat := by
    cases readDigits hi.toNat .tooLarge 0 ds with
    | error e => simp [Except.map]
    | ok k =>
      simp only [Except.map, Except.ok.injEq, Int.ofNat_eq_natCast]
      omega
  rw [hmap, readDigits_eq_ok_iff (Nat.zero_le _)]
  have hvalue : Nat.ofDigitChars 10 ds 0 = n.toNat ∧ n.toNat ≤ hi.toNat ↔
      (Nat.ofDigitChars 10 ds 0 : Int) = n ∧ n ≤ hi := by omega
  rw [hvalue]

/-- A positive number is read from digits, in front of which a plus sign may stand. -/
theorem readInteger_eq_ok_iff {lo hi n : Int} {cs : List Char} (hn : 0 < n) :
    readInteger lo hi cs = .ok n ↔
      ∃ sign ds, cs = sign ++ ds ∧ (sign = [] ∨ sign = ['+']) ∧ ds ≠ [] ∧
        (∀ c ∈ ds, c.isDigit = true) ∧ (Nat.ofDigitChars 10 ds 0 : Int) = n ∧ n ≤ hi := by
  constructor
  · intro h
    unfold readInteger at h
    split at h
    · cases h
    · cases h
    · cases h
    · next ds hne =>
      have hds := (map_readDigits_eq_ok_iff hn).mp h
      exact ⟨['+'], ds, rfl, .inr rfl, hne, hds⟩
    · split at h
      · have hneg : ∀ x : Except IntegerError Nat, x.map (fun k => -(k : Int)) ≠ .ok n := by
          intro x hx
          cases x with
          | error e => cases hx
          | ok k =>
            have hk : -(k : Int) = n := Except.ok.inj hx
            omega
        exact absurd h (hneg _)
      · cases h
    · next hne _ _ _ _ =>
      have hds := (map_readDigits_eq_ok_iff hn).mp h
      exact ⟨[], cs, rfl, .inl rfl, hne, hds⟩
  · rintro ⟨sign, ds, rfl, hsign, hne, hds⟩
    have hread := (map_readDigits_eq_ok_iff hn).mpr hds
    rcases hsign with rfl | rfl
    · have hplus : '+' ∉ ds := fun h => absurd (hds.1 _ h) (by decide)
      have hminus : '-' ∉ ds := fun h => absurd (hds.1 _ h) (by decide)
      rw [List.nil_append, readInteger_of_unsigned hne hplus hminus, hread]
    · obtain ⟨d, ds, rfl⟩ := List.exists_cons_of_ne_nil hne
      exact hread

/-- **A number is read back.** -/
theorem readUInt64_toString (n : UInt64) : readUInt64 (toString n).toList = .ok n := by
  have hbound : n.toNat ≤ maxUInt64.toNat := by
    have h := n.toNat_lt
    simp only [maxUInt64]
    omega
  have hdigits : readDigits maxUInt64.toNat .tooLarge 0 (Nat.toDigits 10 n.toNat) =
      .ok n.toNat := by
    simpa [readDigits] using readDigits_toDigits hbound .tooLarge []
  have hplus : '+' ∉ Nat.toDigits 10 n.toNat := fun h =>
    absurd (isDigit_of_mem_toDigits h) (by decide)
  have hminus : '-' ∉ Nat.toDigits 10 n.toNat := fun h =>
    absurd (isDigit_of_mem_toDigits h) (by decide)
  rw [readUInt64, toList_toString, readInteger_of_unsigned (toDigits_ne_nil _) hplus hminus,
    hdigits]
  simp [Except.map]

end LintPatrol.Number
