import LintPatrol.Json.Reader
import LintPatrol.Json.Writer
import LintPatrol.Proofs.Number.Decimal

/-!
# LintPatrol.Proofs.Json.Text

A JSON value whose numbers are integers of 64 bits is read back from its text
(`ofText?_compact`), whatever strings it holds.  Each reader takes the
characters of one value and leaves what stands behind it: what is written of a
character (`readString_escapeChar`), of an integer (`readNumber_digits`), and
from these of a value, the items of an array and the members of an object
together (`readsAt`).  The readers are bounded by a depth, so the induction is
on it: text shorter than the depth is read whole.
-/

namespace LintPatrol.Json

open Number

/-! ## Strings -/

/-- A digit that is written is read as it. -/
theorem hexDigit?_hexDigit {d : Nat} (h : d < 16) : hexDigit? (hexDigit d) = some d := by
  decide +revert

/-- So are the four digits of a control character. -/
theorem hex4?_control {n : Nat} (h : n < 0x20) :
    hex4? '0' '0' (hexDigit (n / 16)) (hexDigit (n % 16)) = some n := by
  have hzero : hexDigit? '0' = some 0 := by decide
  have hhigh := hexDigit?_hexDigit (d := n / 16) (by omega)
  have hlow := hexDigit?_hexDigit (d := n % 16) (by omega)
  simp only [hex4?, hzero, hhigh, hlow, Option.bind_eq_bind, Option.bind_some, Option.pure_def]
  congr 1
  omega

/-- What is written of a character is read as the character. -/
theorem readString_escapeChar (acc : List Char) (c : Char) (cs : List Char) :
    readString acc (escapeChar c ++ cs) = readString (c :: acc) cs := by
  unfold escapeChar
  split
  · next hc => rw [hc]; rfl
  split
  · next hc => rw [hc]; rfl
  split
  · next hc => rw [hc]; rfl
  split
  · next hc => rw [hc]; rfl
  split
  · next hc => rw [hc]; rfl
  split
  · next hc => rw [hc]; rfl
  split
  · next hc => rw [hc]; rfl
  split
  · next hcontrol =>
    have hwhole : isSurrogate c.toNat = false := by
      simp [isSurrogate]
      omega
    simp [readString, hex4?_control hcontrol, hwhole]
  · next hquote hback _ _ _ _ _ hcontrol =>
    rw [List.singleton_append, readString.eq_def]
    split
    · next heq => cases heq
    · next heq => exact absurd (List.cons.inj heq).1 hquote
    · next heq => exact absurd (List.cons.inj heq).1 hback
    · next heq => exact absurd (List.cons.inj heq).1 hback
    · next heq =>
      obtain ⟨rfl, rfl⟩ := List.cons.inj heq
      exact if_neg hcontrol

/-- A string is read up to the quote behind it. -/
theorem readString_escaped (acc cs rest : List Char) :
    readString acc (cs.flatMap escapeChar ++ '"' :: rest) = some (acc.reverse ++ cs, rest) := by
  induction cs generalizing acc with
  | nil => simp [readString]
  | cons c cs ih =>
    rw [List.flatMap_cons, List.append_assoc, readString_escapeChar, ih, List.reverse_cons,
      List.append_assoc, List.singleton_append]

theorem toList_quoted (s : String) :
    (quoted s).toList = '"' :: (s.toList.flatMap escapeChar ++ ['"']) := by
  simp [quoted]

/-! ## Integers -/

/-- What may stand behind a value: nothing, or a mark between or behind values. -/
def Ends (rest : List Char) : Prop := ∀ c ∈ rest.head?, c = ',' ∨ c = ']' ∨ c = '\x7d'

theorem Ends.stops {rest : List Char} (h : Ends rest) : Stops rest := by
  intro c hc
  rcases h c hc with rfl | rfl | rfl <;> rfl

/-- Digits are taken up to what is none. -/
theorem spanDigits_append {ds rest : List Char} (hds : ∀ c ∈ ds, c.isDigit = true)
    (hrest : Stops rest) : spanDigits (ds ++ rest) = (ds.filterMap digit?, rest) := by
  have hsome : ∀ c ∈ ds, (digit? c).isSome = true := fun c hc => by
    rw [digit?_eq_some_iff.mpr ⟨hds c hc, rfl⟩]
    rfl
  rw [spanDigits, List.takeWhile_append_of_pos hsome, List.dropWhile_append_of_pos hsome,
    hrest.takeWhile_digit?, hrest.dropWhile_digit?, List.append_nil]

/-- Digits that write no more than the greatest significand are kept as they are. -/
theorem foldl_whole {ds : List Char} (hds : ∀ c ∈ ds, c.isDigit = true) {acc : Nat}
    (h : Nat.ofDigitChars 10 ds acc ≤ maxSignificand) :
    (ds.filterMap digit?).foldl Decimal.whole ⟨acc, 0, true⟩ =
      ⟨Nat.ofDigitChars 10 ds acc, 0, true⟩ := by
  induction ds generalizing acc with
  | nil => rfl
  | cons d ds ih =>
    obtain ⟨hd, hds⟩ := List.forall_mem_cons.mp hds
    rw [Nat.ofDigitChars_cons, Nat.mul_comm 10] at h ⊢
    have hle : acc * 10 + (d.toNat - '0'.toNat) ≤ maxSignificand := by
      rw [Nat.ofDigitChars_eq_ofDigitChars_zero] at h
      have hpos : 0 < 10 ^ ds.length := Nat.pow_pos (by decide)
      have hmul := Nat.le_mul_of_pos_left (acc * 10 + (d.toNat - '0'.toNat)) hpos
      omega
    have hstep : Decimal.whole ⟨acc, 0, true⟩ (d.toNat - '0'.toNat) =
        ⟨acc * 10 + (d.toNat - '0'.toNat), 0, true⟩ := by
      simp only [Decimal.whole, Bool.true_and, decide_eq_true hle, if_true]
    rw [List.filterMap_cons_some (digit?_eq_some_iff.mpr ⟨hd, rfl⟩), List.foldl_cons, hstep,
      ih hds h]

/-- The values of plain digits do not begin with a zero, a single one apart. -/
theorem filterMap_digit?_ne {ds : List Char} (h : IsPlain ds) :
    ds.filterMap digit? ≠ [] ∧ ∀ v vs, ds.filterMap digit? ≠ 0 :: v :: vs := by
  obtain ⟨d, ds, rfl⟩ := List.exists_cons_of_ne_nil h.ne_nil
  have hd := h.isDigit d List.mem_cons_self
  rw [List.filterMap_cons_some (digit?_eq_some_iff.mpr ⟨hd, rfl⟩)]
  refine ⟨List.cons_ne_nil _ _, fun v vs heq => ?_⟩
  obtain ⟨hzero, hmore⟩ := List.cons.inj heq
  have hdigit : d = '0' := by
    have hbounds : '0' ≤ d ∧ d ≤ '9' := by simpa [Char.isDigit, Char.le_def] using hd
    have hge : '0'.toNat ≤ d.toNat := hbounds.1
    exact Char.toNat_inj.mp (by omega)
  rw [(List.cons.inj (h.eq_zero (congrArg some hdigit))).2] at hmore
  cases hmore

/-- The digits of a number are read as the number, and a sign in front with them. -/
theorem readNumber_digits (negative : Bool) {n : Nat} (h : n ≤ maxSignificand)
    (hneg : negative = true → 0 < n ∧ minInt64 ≤ -(n : Int)) {rest : List Char}
    (hrest : Ends rest) :
    readNumber negative (Nat.toDigits 10 n ++ rest) =
      some (.int (if negative then -(n : Int) else n), rest) := by
  have hplain := isPlain_toDigits n
  have hvalue : Nat.ofDigitChars 10 (Nat.toDigits 10 n) 0 = n := Nat.ofDigitChars_ten_toDigits
  have hwhole := foldl_whole hplain.isDigit (hvalue.symm ▸ h)
  rw [hvalue] at hwhole
  obtain ⟨hne, hzero⟩ := filterMap_digit?_ne hplain
  rw [readNumber, spanDigits_append hplain.isDigit hrest.stops]
  split
  · next heq => exact absurd (Prod.mk.inj heq).1 hne
  · next heq => exact absurd (Prod.mk.inj heq).1 (hzero _ _)
  · next heq =>
    obtain ⟨rfl, rfl⟩ := Prod.mk.inj heq
    simp only [hwhole]
    split
    · next heq => exact absurd (hrest '.' rfl) (by decide)
    · next heq => exact absurd (hrest 'e' rfl) (by decide)
    · next heq => exact absurd (hrest 'E' rfl) (by decide)
    · cases negative with
      | false => rfl
      | true => simp [hneg rfl]

/-! ## Values -/

mutual

/-- The numbers of a value are integers of 64 bits. -/
def IsWhole : Json → Prop
  | .int n => minInt64 ≤ n ∧ n ≤ maxUInt64
  | .float _ => False
  | .arr items => AreWhole items
  | .obj members => HaveWhole members
  | _ => True

/-- So are those of all items. -/
def AreWhole : List Json → Prop
  | [] => True
  | v :: vs => IsWhole v ∧ AreWhole vs

/-- So are those of all members. -/
def HaveWhole : List (String × Json) → Prop
  | [] => True
  | (_, v) :: ms => IsWhole v ∧ HaveWhole ms

end

theorem skipSpace_cons {c : Char} (h : c ∉ [' ', '\t', '\n', '\r']) (cs : List Char) :
    skipSpace (c :: cs) = c :: cs := by
  simp only [List.mem_cons, List.not_mem_nil, or_false] at h
  rw [skipSpace, if_neg h]

/-- A digit is none of the white space characters. -/
theorem not_space_of_isDigit {c : Char} (h : c.isDigit = true) : c ∉ [' ', '\t', '\n', '\r'] := by
  intro hc
  simp only [List.mem_cons, List.not_mem_nil, or_false] at hc
  rcases hc with rfl | rfl | rfl | rfl <;> cases h

/-- A value that begins with a digit is a number. -/
theorem readValue_digit {d : Char} (hd : d.isDigit = true) (depth : Nat) (cs : List Char) :
    readValue (depth + 1) (d :: cs) = readNumber false (d :: cs) := by
  rw [readValue, skipSpace_cons (not_space_of_isDigit hd)]
  split
  · next heq => exact absurd (List.cons.inj heq).1 (isDigit_ne hd rfl)
  · next heq => exact absurd (List.cons.inj heq).1 (isDigit_ne hd rfl)
  · next heq => exact absurd (List.cons.inj heq).1 (isDigit_ne hd rfl)
  · next heq => exact absurd (List.cons.inj heq).1 (isDigit_ne hd rfl)
  · next heq => exact absurd (List.cons.inj heq).1 (isDigit_ne hd rfl)
  · next heq => exact absurd (List.cons.inj heq).1 (isDigit_ne hd rfl)
  · next heq => exact absurd (List.cons.inj heq).1 (isDigit_ne hd rfl)
  · rfl

/-- An integer is read up to what ends it. -/
theorem readValue_int {n : Int} (h : IsWhole (.int n)) (depth : Nat) {rest : List Char}
    (hrest : Ends rest) :
    readValue (depth + 1) ((toString n).toList ++ rest) = some (.int n, rest) := by
  obtain ⟨hlow, hhigh⟩ := h
  have hle : n.natAbs ≤ maxSignificand := by
    simp only [minInt64, maxUInt64, maxSignificand] at *
    omega
  rw [toList_toString_int]
  split
  · next hneg =>
    have hvalue : -(n.natAbs : Int) = n := by omega
    have hread := readNumber_digits true hle (fun _ => by omega) hrest
    rw [List.cons_append, readValue, skipSpace_cons (by decide)]
    simp only [hread, if_true, hvalue]
  · next hpos =>
    have hvalue : (n.natAbs : Int) = n := by omega
    have hread := readNumber_digits false hle (fun h => by cases h) hrest
    obtain ⟨d, ds, hds, hd⟩ := exists_toDigits_cons n.natAbs
    rw [hds, List.cons_append] at hread ⊢
    rw [readValue_digit hd, hread, if_neg Bool.false_ne_true, hvalue]

theorem toList_compact_arr (items : List Json) :
    (compact (.arr items)).toList =
      '[' :: ((",".intercalate (compactItems items)).toList ++ [']']) := by
  rw [compact, String.toList_append, String.toList_append]
  rfl

theorem toList_compact_obj (members : List (String × Json)) :
    (compact (.obj members)).toList =
      '\x7b' :: ((",".intercalate (compactMembers members)).toList ++ ['\x7d']) := by
  rw [compact, String.toList_append, String.toList_append]
  rfl

theorem toList_member (k : String) (v : Json) :
    (quoted k ++ ":" ++ compact v).toList =
      '"' :: (k.toList.flatMap escapeChar ++ '"' :: ':' :: (compact v).toList) := by
  simp [toList_quoted]

/-- The text of items, or of members, with a comma between them. -/
theorem toList_intercalate_cons_cons (s t : String) (ss : List String) :
    (",".intercalate (s :: t :: ss)).toList =
      s.toList ++ ',' :: (",".intercalate (t :: ss)).toList := by
  simp

/-- Items are separated by commas. -/
theorem toList_items_cons_cons (v w : Json) (vs : List Json) :
    (",".intercalate (compactItems (v :: w :: vs))).toList =
      (compact v).toList ++ ',' :: (",".intercalate (compactItems (w :: vs))).toList := by
  simp only [compactItems, toList_intercalate_cons_cons]

/-- So are members. -/
theorem toList_members_cons_cons (k l : String) (v w : Json) (ms : List (String × Json)) :
    (",".intercalate (compactMembers ((k, v) :: (l, w) :: ms))).toList =
      '"' :: (k.toList.flatMap escapeChar ++ '"' :: ':' :: ((compact v).toList ++
        ',' :: (",".intercalate (compactMembers ((l, w) :: ms))).toList)) := by
  simp only [compactMembers, toList_intercalate_cons_cons, toList_member, List.cons_append,
    List.append_assoc]

theorem toList_items_singleton (v : Json) :
    (",".intercalate (compactItems [v])).toList = (compact v).toList := by
  simp [compactItems]

theorem toList_members_singleton (k : String) (v : Json) :
    (",".intercalate (compactMembers [(k, v)])).toList =
      '"' :: (k.toList.flatMap escapeChar ++ '"' :: ':' :: (compact v).toList) := by
  rw [← toList_member]
  simp [compactMembers]

/-- A value begins neither with white space nor with a closing bracket. -/
theorem exists_compact_cons {v : Json} (h : IsWhole v) :
    ∃ c cs, (compact v).toList = c :: cs ∧ c ∉ [' ', '\t', '\n', '\r'] ∧ c ≠ ']' := by
  cases v with
  | null => exact ⟨'n', _, rfl, by decide, by decide⟩
  | bool b =>
    cases b with
    | true => exact ⟨'t', _, rfl, by decide, by decide⟩
    | false => exact ⟨'f', _, rfl, by decide, by decide⟩
  | int n =>
    have htext : (compact (.int n)).toList = (toString n).toList := rfl
    rw [htext, toList_toString_int]
    split
    · exact ⟨'-', _, rfl, by decide, by decide⟩
    · obtain ⟨d, ds, hds, hd⟩ := exists_toDigits_cons n.natAbs
      exact ⟨d, ds, hds, not_space_of_isDigit hd, isDigit_ne hd rfl⟩
  | float x => exact h.elim
  | str s => exact ⟨'"', _, toList_quoted s, by decide, by decide⟩
  | arr items => exact ⟨'[', _, toList_compact_arr items, by decide, by decide⟩
  | obj members => exact ⟨'\x7b', _, toList_compact_obj members, by decide, by decide⟩

/-- What may stand behind a value ends it. -/
theorem ends_cons {c : Char} (h : c = ',' ∨ c = ']' ∨ c = '\x7d') (rest : List Char) :
    Ends (c :: rest) := by
  intro d hd
  obtain rfl : c = d := by simpa using hd
  exact h

/-- Nor do the items of an array. -/
theorem exists_items_cons {v : Json} {vs : List Json} (h : AreWhole (v :: vs)) :
    ∃ c cs, (",".intercalate (compactItems (v :: vs))).toList = c :: cs ∧
      c ∉ [' ', '\t', '\n', '\r'] ∧ c ≠ ']' := by
  obtain ⟨c, cs, hcs, hc⟩ := exists_compact_cons h.1
  cases vs with
  | nil => exact ⟨c, cs, by rw [toList_items_singleton, hcs], hc⟩
  | cons w vs => exact ⟨c, _, by rw [toList_items_cons_cons, hcs, List.cons_append], hc⟩

/-- The members of an object begin with a quote. -/
theorem exists_members_cons (k : String) (v : Json) (ms : List (String × Json)) :
    ∃ cs, (",".intercalate (compactMembers ((k, v) :: ms))).toList = '"' :: cs := by
  cases ms with
  | nil => exact ⟨_, toList_members_singleton k v⟩
  | cons m ms => exact ⟨_, toList_members_cons_cons k m.1 v m.2 ms⟩

section Steps

variable {depth : Nat} {k : String} {v : Json} {vs : List Json} {ms : List (String × Json)}
variable {cs more rest : List Char}

/-- An item before the bracket is the last one. -/
theorem readItems_last (h : readValue depth cs = some (v, ']' :: rest)) :
    readItems (depth + 1) cs = some ([v], rest) := by
  simp only [readItems, h, skipSpace_cons (c := ']') (by decide)]

/-- Behind a comma the other items are read. -/
theorem readItems_more (h : readValue depth cs = some (v, ',' :: more))
    (hmore : readItems depth more = some (vs, rest)) :
    readItems (depth + 1) cs = some (v :: vs, rest) := by
  simp only [readItems, h, skipSpace_cons (c := ',') (by decide), hmore, Option.map_some]

/-- A member before the brace is the last one. -/
theorem readMembers_last (h : readValue depth cs = some (v, '\x7d' :: rest)) :
    readMembers (depth + 1) ('"' :: (k.toList.flatMap escapeChar ++ '"' :: ':' :: cs)) =
      some ([(k, v)], rest) := by
  simp only [readMembers, skipSpace_cons (c := '"') (by decide), readString_escaped,
    List.reverse_nil, List.nil_append, skipSpace_cons (c := ':') (by decide), h,
    skipSpace_cons (c := '\x7d') (by decide), String.ofList_toList]

/-- Behind a comma the other members are read. -/
theorem readMembers_more (h : readValue depth cs = some (v, ',' :: more))
    (hmore : readMembers depth more = some (ms, rest)) :
    readMembers (depth + 1) ('"' :: (k.toList.flatMap escapeChar ++ '"' :: ':' :: cs)) =
      some ((k, v) :: ms, rest) := by
  simp only [readMembers, skipSpace_cons (c := '"') (by decide), readString_escaped,
    List.reverse_nil, List.nil_append, skipSpace_cons (c := ':') (by decide), h,
    skipSpace_cons (c := ',') (by decide), hmore, Option.map_some, String.ofList_toList]

/-- An array is read as its items. -/
theorem readValue_arr {c : Char} (hspace : c ∉ [' ', '\t', '\n', '\r']) (hclose : c ≠ ']')
    (h : readItems depth (c :: cs) = some (vs, rest)) :
    readValue (depth + 1) ('[' :: c :: cs) = some (.arr vs, rest) := by
  simp only [readValue, skipSpace_cons (c := '[') (by decide), skipSpace_cons hspace]
  split
  · next heq => exact absurd (List.cons.inj heq).1 hclose
  · rw [h, Option.map_some]

/-- An object is read as its members. -/
theorem readValue_obj (h : readMembers depth ('"' :: cs) = some (ms, rest)) :
    readValue (depth + 1) ('\x7b' :: '"' :: cs) = some (.obj ms, rest) := by
  simp only [readValue, skipSpace_cons (c := '\x7b') (by decide),
    skipSpace_cons (c := '"') (by decide)]
  split
  · next heq => exact absurd (List.cons.inj heq).1 (by decide)
  · rw [h, Option.map_some]

end Steps

/-- What the three readers do down to a depth that is greater than the length of the text. -/
structure ReadsAt (depth : Nat) : Prop where
  value : ∀ (v : Json) (rest : List Char), IsWhole v → (compact v).toList.length < depth →
    Ends rest → readValue depth ((compact v).toList ++ rest) = some (v, rest)
  items : ∀ (v : Json) (vs : List Json) (rest : List Char), AreWhole (v :: vs) →
    (",".intercalate (compactItems (v :: vs))).toList.length + 1 < depth →
    readItems depth ((",".intercalate (compactItems (v :: vs))).toList ++ ']' :: rest) =
      some (v :: vs, rest)
  members : ∀ (k : String) (v : Json) (ms : List (String × Json)) (rest : List Char),
    HaveWhole ((k, v) :: ms) →
    (",".intercalate (compactMembers ((k, v) :: ms))).toList.length + 1 < depth →
    readMembers depth ((",".intercalate (compactMembers ((k, v) :: ms))).toList ++ '\x7d' :: rest) =
      some ((k, v) :: ms, rest)

section Depth

variable {depth : Nat} (ih : ReadsAt depth)
include ih

/-- A value is read if its parts are read at one depth less. -/
theorem ReadsAt.succ_value (v : Json) (rest : List Char) (hv : IsWhole v)
    (hdepth : (compact v).toList.length < depth + 1) (hrest : Ends rest) :
    readValue (depth + 1) ((compact v).toList ++ rest) = some (v, rest) := by
  cases v with
  | null => rfl
  | bool b => cases b <;> rfl
  | int n => exact readValue_int hv depth hrest
  | float x => exact hv.elim
  | str s =>
    rw [compact, toList_quoted, List.cons_append, List.append_assoc, List.singleton_append,
      readValue, skipSpace_cons (by decide)]
    simp only [readString_escaped, List.reverse_nil, List.nil_append, Option.map_some,
      String.ofList_toList]
  | arr items =>
    cases items with
    | nil => rfl
    | cons v vs =>
      rw [toList_compact_arr, List.length_cons, List.length_append, List.length_singleton] at hdepth
      have hread := ih.items v vs rest hv (by omega)
      obtain ⟨c, cs, hcs, hspace, hclose⟩ := exists_items_cons hv
      rw [toList_compact_arr, List.cons_append, List.append_assoc, List.singleton_append]
      rw [hcs, List.cons_append] at hread ⊢
      exact readValue_arr hspace hclose hread
  | obj members =>
    cases members with
    | nil => rfl
    | cons m ms =>
      rw [toList_compact_obj, List.length_cons, List.length_append, List.length_singleton] at hdepth
      obtain ⟨k, v⟩ := m
      have hread := ih.members k v ms rest hv (by omega)
      obtain ⟨cs, hcs⟩ := exists_members_cons k v ms
      rw [toList_compact_obj, List.cons_append, List.append_assoc, List.singleton_append]
      rw [hcs, List.cons_append] at hread ⊢
      exact readValue_obj hread

/-- So are the items of an array. -/
theorem ReadsAt.succ_items (v : Json) (vs : List Json) (rest : List Char)
    (hv : AreWhole (v :: vs))
    (hdepth : (",".intercalate (compactItems (v :: vs))).toList.length + 1 < depth + 1) :
    readItems (depth + 1) ((",".intercalate (compactItems (v :: vs))).toList ++ ']' :: rest) =
      some (v :: vs, rest) := by
  cases vs with
  | nil =>
    rw [toList_items_singleton] at hdepth ⊢
    exact readItems_last (ih.value v _ hv.1 (by omega) (ends_cons (by decide) _))
  | cons w vs =>
    rw [toList_items_cons_cons, List.length_append, List.length_cons] at hdepth
    rw [toList_items_cons_cons, List.append_assoc, List.cons_append]
    exact readItems_more (ih.value v _ hv.1 (by omega) (ends_cons (by decide) _))
      (ih.items w vs rest hv.2 (by omega))

/-- So are the members of an object. -/
theorem ReadsAt.succ_members (k : String) (v : Json) (ms : List (String × Json))
    (rest : List Char) (hv : HaveWhole ((k, v) :: ms))
    (hdepth : (",".intercalate (compactMembers ((k, v) :: ms))).toList.length + 1 < depth + 1) :
    readMembers (depth + 1)
        ((",".intercalate (compactMembers ((k, v) :: ms))).toList ++ '\x7d' :: rest) =
      some ((k, v) :: ms, rest) := by
  cases ms with
  | nil =>
    rw [toList_members_singleton] at hdepth ⊢
    simp only [List.length_cons, List.length_append] at hdepth
    simp only [List.cons_append, List.append_assoc]
    exact readMembers_last (ih.value v _ hv.1 (by omega) (ends_cons (by decide) _))
  | cons m ms =>
    obtain ⟨l, w⟩ := m
    rw [toList_members_cons_cons] at hdepth ⊢
    simp only [List.length_cons, List.length_append] at hdepth
    simp only [List.cons_append, List.append_assoc]
    exact readMembers_more (ih.value v _ hv.1 (by omega) (ends_cons (by decide) _))
      (ih.members l w ms rest hv.2 (by omega))

end Depth

/-- What is written is read back at every depth that its text does not exceed. -/
theorem readsAt (depth : Nat) : ReadsAt depth := by
  induction depth with
  | zero =>
    exact ⟨fun _ _ _ h => absurd h (Nat.not_lt_zero _),
      fun _ _ _ _ h => absurd h (Nat.not_lt_zero _),
      fun _ _ _ _ _ h => absurd h (Nat.not_lt_zero _)⟩
  | succ depth ih => exact ⟨ih.succ_value, ih.succ_items, ih.succ_members⟩

/-- **A value is read back from its text.** -/
theorem ofText?_compact {v : Json} (h : IsWhole v) : ofText? (compact v) = some v := by
  have hread := (readsAt ((compact v).toList.length + 1)).value v [] h (Nat.lt_succ_self _)
    (by simp [Ends])
  rw [List.append_nil] at hread
  rw [ofText?, read, hread]
  rfl

end LintPatrol.Json
