import LintPatrol.Toml.Scalar
import LintPatrol.Toml.Writer

/-!
# LintPatrol.Proofs.Toml.Quoting

Strings are read back as they were, in whichever style they are written.  What
is written for one character is a quote as it is, another character as it is, or
an escape (`Written`); the reader undoes each of them.  A string over several
lines ends at three quotes in a row, and up to two more in front of them belong
to it: inside there are never three.

## Main statements

* `le_longestRun`: a run is no longer than the longest one.
* `escapeFrom_cons`: what is written for the first character of a text, and for
  the others.
* `readString_writeIn`: a string is read back, whatever it holds.
-/

namespace LintPatrol.Toml

/-! ## Runs -/

/-- The longest run and the last one, after one more character. -/
def countRun (c : Char) (s : Nat × Nat) (d : Char) : Nat × Nat :=
  if d = c then (max s.1 (s.2 + 1), s.2 + 1) else (s.1, 0)

theorem longestRun_eq (c : Char) (cs : List Char) :
    longestRun c cs = (cs.foldl (countRun c) (0, 0)).1 := rfl

theorem le_countRun (c : Char) (s : Nat × Nat) (d : Char) : s.1 ≤ (countRun c s d).1 := by
  unfold countRun
  split
  · exact Nat.le_max_left _ _
  · exact Nat.le_refl _

theorem le_foldl_countRun (c : Char) (s : Nat × Nat) (cs : List Char) :
    s.1 ≤ (cs.foldl (countRun c) s).1 := by
  induction cs generalizing s with
  | nil => exact Nat.le_refl _
  | cons d cs ih => exact Nat.le_trans (le_countRun c s d) (ih (countRun c s d))

theorem foldl_countRun_replicate (c : Char) (s : Nat × Nat) (k : Nat) :
    s.2 + (k + 1) ≤ ((List.replicate (k + 1) c).foldl (countRun c) s).1 := by
  induction k generalizing s with
  | zero =>
    have hrun : countRun c s c = (max s.1 (s.2 + 1), s.2 + 1) := if_pos rfl
    show s.2 + 1 ≤ (countRun c s c).1
    rw [hrun]
    exact Nat.le_max_right s.1 (s.2 + 1)
  | succ k ih =>
    have hnext := ih (countRun c s c)
    have hrun : (countRun c s c).2 = s.2 + 1 := by simp [countRun]
    rw [List.replicate_succ, List.foldl_cons]
    omega

/-- A run is no longer than the longest one. -/
theorem le_longestRun {c : Char} {k : Nat} {cs : List Char} (h : List.replicate k c <:+: cs) :
    k ≤ longestRun c cs := by
  obtain ⟨front, rest, rfl⟩ := h
  cases k with
  | zero => exact Nat.zero_le _
  | succ k =>
    rw [longestRun_eq, List.foldl_append, List.foldl_append]
    have hrun := foldl_countRun_replicate c (front.foldl (countRun c) (0, 0)) k
    have hrest := le_foldl_countRun c
      ((List.replicate (k + 1) c).foldl (countRun c) (front.foldl (countRun c) (0, 0))) rest
    omega

/-- A character that has no run is not there. -/
theorem not_mem_of_longestRun {c : Char} {cs : List Char} (h : longestRun c cs = 0) : c ∉ cs := by
  intro hc
  obtain ⟨front, rest, rfl⟩ := List.append_of_mem hc
  have hrun : List.replicate 1 c <:+: front ++ c :: rest := ⟨front, rest, by simp⟩
  have := le_longestRun hrun
  omega

/-! ## Escapes -/

theorem hexDigit?_digit {d : Nat} (h : d < 16) :
    Json.hexDigit?
      (if d < 10 then Char.ofNat ('0'.toNat + d) else Char.ofNat ('A'.toNat + d - 10)) =
        some d := by
  decide +revert

theorem hexNumber?_hex4 {n : Nat} (h : n < 65536) : hexNumber? (hex4 n) = some n := by
  have hdigit := fun k => hexDigit?_digit (Nat.mod_lt k (show 0 < 16 by decide))
  simp only [hexNumber?, hex4, List.map_cons, List.map_nil, List.foldlM_cons, List.foldlM_nil,
    hdigit, Option.map_some, Option.bind_eq_bind, Option.bind_some, Option.pure_def]
  congr 1
  omega

/-- A character of few bits is read back from its digits. -/
theorem readCode_hex4 {c : Char} (h : c.toNat < 0xD800) (rest : List Char) :
    readCode 4 (hex4 c.toNat ++ rest) = some (c, rest) := by
  have hlength : (hex4 c.toNat).length = 4 := rfl
  have hnumber : hexNumber? (hex4 c.toNat) = some c.toNat := hexNumber?_hex4 (by omega)
  have hchar : charOf? c.toNat = some c := by
    rw [charOf?, if_pos (.inl h), Char.ofNat_toNat]
  rw [readCode, if_neg (by simp [hlength]), List.take_left' hlength, List.drop_left' hlength,
    hnumber, Option.bind_some, hchar]
  rfl

/-- What is written for a character after so many quotes, and how many quotes then stand
right before. -/
inductive Written (multiline : Bool) (quotes : Nat) (c : Char) : List Char → Nat → Prop
  | quote (hc : c = '"') (hlines : multiline = true) (hquotes : quotes < 2) :
    Written multiline quotes c ['"'] (quotes + 1)
  | plain (hquote : c ≠ '"') (hback : c ≠ '\\')
    (hcontrol : isControl c = true → multiline = true ∧ c = '\n') :
    Written multiline quotes c [c] 0
  | escape (e : List Char) (hread : ∀ rest, readEscape (e ++ rest) = some (c, rest)) :
    Written multiline quotes c ('\\' :: e) 0

/-- Any character but a quote is written so that it is read as itself. -/
theorem written_escapeChar (multiline : Bool) (quotes : Nat) {c : Char} (h : c ≠ '"') :
    Written multiline quotes c (escapeChar multiline c) 0 := by
  unfold escapeChar
  split
  · next hc => exact .escape ['b'] fun rest => by rw [hc]; rfl
  split
  · next hc => exact .escape ['t'] fun rest => by rw [hc]; rfl
  split
  · next hc =>
    split
    · next hlines =>
      subst hc
      exact .plain h (by decide) fun _ => ⟨hlines, rfl⟩
    · exact .escape ['n'] fun rest => by rw [hc]; rfl
  split
  · next hc => exact .escape ['f'] fun rest => by rw [hc]; rfl
  split
  · next hc => exact .escape ['r'] fun rest => by rw [hc]; rfl
  split
  · next hc => exact .escape ['\\'] fun rest => by rw [hc]; rfl
  split
  · next hcontrol => exact .escape ('u' :: hex4 c.toNat) fun rest => readCode_hex4 (by omega) rest
  · next htab hline _ _ hback hcontrol =>
    refine .plain h hback fun hc => absurd hc ?_
    rw [not_or] at hcontrol
    simp [isControl, hcontrol]

/-- What is written for the first character, and for the others. -/
theorem escapeFrom_cons (multiline : Bool) (quotes : Nat) (c : Char) (cs : List Char) :
    ∃ text next, Written multiline quotes c text next ∧
      escapeFrom multiline quotes (c :: cs) = text ++ escapeFrom multiline next cs := by
  rw [escapeFrom]
  split
  · next hc =>
    by_cases hquotes : quotes < if multiline then 2 else 0
    · rw [if_pos hquotes]
      cases multiline with
      | true => exact ⟨['"'], quotes + 1, .quote hc rfl hquotes, rfl⟩
      | false => exact absurd hquotes (Nat.not_lt_zero quotes)
    · rw [if_neg hquotes]
      exact ⟨['\\', '"'], 0, .escape ['"'] fun rest => by rw [hc]; rfl, rfl⟩
  · next hc => exact ⟨_, 0, written_escapeChar multiline quotes hc, rfl⟩

theorem Written.length_pos {multiline : Bool} {quotes next : Nat} {c : Char} {text : List Char}
    (h : Written multiline quotes c text next) : 0 < text.length := by
  cases h <;> simp

theorem length_le_escapeFrom (multiline : Bool) (quotes : Nat) (cs : List Char) :
    cs.length ≤ (escapeFrom multiline quotes cs).length := by
  induction cs generalizing quotes with
  | nil => exact Nat.zero_le _
  | cons c cs ih =>
    obtain ⟨text, next, hwritten, htext⟩ := escapeFrom_cons multiline quotes c cs
    have hrest := ih next
    have hpos := hwritten.length_pos
    rw [htext, List.length_append, List.length_cons]
    omega

/-! ## Strings on one line -/

theorem readBasic_plain {fuel : Nat} {acc cs : List Char} {c : Char} (hquote : c ≠ '"')
    (hback : c ≠ '\\') (hcontrol : isControl c = false) :
    readBasic (fuel + 1) acc (c :: cs) = readBasic fuel (c :: acc) cs := by
  simp [readBasic, hcontrol]

theorem readBasic_escape {fuel : Nat} {acc cs rest : List Char} {c : Char}
    (h : readEscape cs = some (c, rest)) :
    readBasic (fuel + 1) acc ('\\' :: cs) = readBasic fuel (c :: acc) rest := by
  simp [readBasic, h]

/-- A string in double quotes is read back. -/
theorem readBasic_escapeFrom {fuel : Nat} {cs : List Char} (hfuel : cs.length < fuel)
    (quotes : Nat) (acc rest : List Char) :
    readBasic fuel acc (escapeFrom false quotes cs ++ '"' :: rest) =
      some (acc.reverse ++ cs, rest) := by
  induction cs generalizing fuel quotes acc with
  | nil =>
    obtain ⟨fuel, rfl⟩ := Nat.exists_eq_succ_of_ne_zero (Nat.ne_of_gt hfuel)
    simp [escapeFrom, readBasic]
  | cons c cs ih =>
    obtain ⟨fuel, rfl⟩ := Nat.exists_eq_succ_of_ne_zero (Nat.ne_zero_of_lt hfuel)
    rw [List.length_cons] at hfuel
    have hrest : acc.reverse ++ c :: cs = (c :: acc).reverse ++ cs := by simp
    obtain ⟨text, next, hwritten, htext⟩ := escapeFrom_cons false quotes c cs
    rw [htext, List.append_assoc, hrest, ← ih (Nat.lt_of_succ_lt_succ hfuel) next (c :: acc)]
    cases hwritten with
    | quote _ hlines => cases hlines
    | plain hquote hback hcontrol =>
      have hcontrol : isControl c = false := by
        rw [← Bool.not_eq_true]
        exact fun h => Bool.false_ne_true (hcontrol h).1
      exact readBasic_plain hquote hback hcontrol
    | escape e hread => exact readBasic_escape (hread _)

/-- So is one in single quotes, if it holds nothing that ends it. -/
theorem readLiteral_append {cs : List Char} (hquote : '\'' ∉ cs)
    (hcontrol : ∀ c ∈ cs, isControl c = false) (acc rest : List Char) :
    readLiteral acc (cs ++ '\'' :: rest) = some (acc.reverse ++ cs, rest) := by
  induction cs generalizing acc with
  | nil => simp [readLiteral]
  | cons c cs ih =>
    obtain ⟨hc, hcs⟩ := List.forall_mem_cons.mp hcontrol
    rw [List.mem_cons, not_or] at hquote
    have hne : c ≠ '\'' := Ne.symm hquote.1
    have hstep : readLiteral acc (c :: (cs ++ '\'' :: rest)) =
        readLiteral (c :: acc) (cs ++ '\'' :: rest) := by
      simp [readLiteral, hc]
    rw [List.cons_append, hstep, ih hquote.2 hcs, List.reverse_cons, List.append_assoc,
      List.singleton_append]

/-! ## Quotes in a row -/

/-- A string over several lines ends at three quotes; up to two more in front belong to it. -/
theorem endOfLines_quotes {quote : Char} {k : Nat} (hk : k ≤ 2) {rest : List Char}
    (hrest : rest.head? ≠ some quote) :
    endOfLines quote (List.replicate k quote ++ (List.replicate 3 quote ++ rest)) =
      some (List.replicate k quote, rest) := by
  have hcases : k = 0 ∨ k = 1 ∨ k = 2 := by omega
  rcases hcases with rfl | rfl | rfl
  · rcases rest with _ | ⟨a, _ | ⟨b, rest⟩⟩ <;> simp_all [endOfLines, List.replicate_succ]
  · rcases rest with _ | ⟨a, rest⟩ <;> simp_all [endOfLines, List.replicate_succ]
  · simp [endOfLines, List.replicate_succ]

/-- It does not end at fewer. -/
theorem endOfLines_other {quote c : Char} {k : Nat} (hk : k ≤ 2) (hc : c ≠ quote)
    (cs : List Char) : endOfLines quote (List.replicate k quote ++ c :: cs) = none := by
  have hcases : k = 0 ∨ k = 1 ∨ k = 2 := by omega
  rcases hcases with rfl | rfl | rfl
  · rcases cs with _ | ⟨a, _ | ⟨b, _ | ⟨d, _ | ⟨e, cs⟩⟩⟩⟩ <;> simp [endOfLines, hc]
  · rcases cs with _ | ⟨a, _ | ⟨b, _ | ⟨d, cs⟩⟩⟩ <;> simp [endOfLines, hc]
  · rcases cs with _ | ⟨a, _ | ⟨b, cs⟩⟩ <;> simp [endOfLines, hc, List.replicate_succ]

/-- A text that does not begin with three quotes is at most two quotes, or a string over
several lines does not end in front of it. -/
theorem endOfLines_cases {quote : Char} {cs : List Char}
    (h : ¬List.replicate 3 quote <+: cs) :
    (∃ k ≤ 2, cs = List.replicate k quote) ∨ ∀ rest, endOfLines quote (cs ++ rest) = none := by
  have hother : ∀ k ≤ 2, ∀ c ds, c ≠ quote → cs = List.replicate k quote ++ c :: ds →
      ∀ rest, endOfLines quote (cs ++ rest) = none := by
    rintro k hk c ds hc rfl rest
    rw [List.append_assoc, List.cons_append]
    exact endOfLines_other hk hc (ds ++ rest)
  rcases cs with _ | ⟨a, cs⟩
  · exact .inl ⟨0, by decide, rfl⟩
  by_cases ha : a = quote
  case neg => exact .inr (hother 0 (by decide) a cs ha rfl)
  subst ha
  rcases cs with _ | ⟨b, cs⟩
  · exact .inl ⟨1, by decide, rfl⟩
  by_cases hb : b = a
  case neg => exact .inr (hother 1 (by decide) b cs hb rfl)
  subst hb
  rcases cs with _ | ⟨c, cs⟩
  · exact .inl ⟨2, by decide, rfl⟩
  have hc : c ≠ b := fun hc => h ⟨cs, by rw [hc]; rfl⟩
  exact .inr (hother 2 (by decide) c cs hc rfl)

/-! ## Strings over several lines -/

/-- What may stand in a string over several lines. -/
theorem stands_in_lines {c : Char} (h : isControl c = true → c = '\n') :
    c ≠ '\r' ∧ (c = '\n' ∨ isControl c = false) := by
  constructor
  · rintro rfl
    exact absurd (h rfl) (by decide)
  · cases hc : isControl c with
    | true => exact .inl (h hc)
    | false => exact .inr rfl

theorem readLiteralLines_end {fuel : Nat} {acc cs more rest : List Char}
    (h : endOfLines '\'' cs = some (more, rest)) :
    readLiteralLines (fuel + 1) acc cs = some (acc.reverse ++ more, rest) := by
  simp [readLiteralLines, h]

theorem readLiteralLines_plain {fuel : Nat} {acc cs : List Char} {c : Char}
    (hend : endOfLines '\'' (c :: cs) = none) (hc : isControl c = true → c = '\n') :
    readLiteralLines (fuel + 1) acc (c :: cs) = readLiteralLines fuel (c :: acc) cs := by
  obtain ⟨hreturn, hok⟩ := stands_in_lines hc
  have hpair : ∀ ds, c = '\r' → cs = '\n' :: ds → False := fun _ h => absurd h hreturn
  simp [readLiteralLines, hend, hok]

/-- A string in single quotes over several lines is read back, if it holds nothing that
ends it. -/
theorem readLiteralLines_append {fuel : Nat} {cs : List Char} (hfuel : cs.length < fuel)
    (hquotes : ¬List.replicate 3 '\'' <:+: cs) (hcontrol : ∀ c ∈ cs, isControl c = true → c = '\n')
    (acc : List Char) {rest : List Char} (hrest : rest.head? ≠ some '\'') :
    readLiteralLines fuel acc (cs ++ (List.replicate 3 '\'' ++ rest)) =
      some (acc.reverse ++ cs, rest) := by
  induction cs generalizing fuel acc with
  | nil =>
    obtain ⟨fuel, rfl⟩ := Nat.exists_eq_succ_of_ne_zero (Nat.ne_zero_of_lt hfuel)
    exact readLiteralLines_end (endOfLines_quotes (Nat.zero_le 2) hrest)
  | cons c cs ih =>
    obtain ⟨fuel, rfl⟩ := Nat.exists_eq_succ_of_ne_zero (Nat.ne_zero_of_lt hfuel)
    rcases endOfLines_cases fun h => hquotes h.isInfix with ⟨k, hk, heq⟩ | hnone
    · rw [heq]
      exact readLiteralLines_end (endOfLines_quotes hk hrest)
    · obtain ⟨hc, hcs⟩ := List.forall_mem_cons.mp hcontrol
      have hinside : ¬List.replicate 3 '\'' <:+: cs := fun h =>
        hquotes (h.trans (List.suffix_cons c cs).isInfix)
      have hend := hnone (List.replicate 3 '\'' ++ rest)
      rw [List.cons_append] at hend
      rw [List.cons_append, readLiteralLines_plain hend hc,
        ih (Nat.lt_of_succ_lt_succ hfuel) hinside hcs (c :: acc)]
      simp

theorem readBasicLines_end {fuel : Nat} {acc cs more rest : List Char}
    (h : endOfLines '"' cs = some (more, rest)) :
    readBasicLines (fuel + 1) acc cs = some (acc.reverse ++ more, rest) := by
  simp [readBasicLines, h]

theorem readBasicLines_plain {fuel : Nat} {acc cs : List Char} {c : Char}
    (hend : endOfLines '"' (c :: cs) = none) (hback : c ≠ '\\')
    (hc : isControl c = true → c = '\n') :
    readBasicLines (fuel + 1) acc (c :: cs) = readBasicLines fuel (c :: acc) cs := by
  obtain ⟨hreturn, hok⟩ := stands_in_lines hc
  have hpair : ∀ ds, c = '\r' → cs = '\n' :: ds → False := fun _ h => absurd h hreturn
  simp [readBasicLines, hend, hok]

theorem readBasicLines_escape {fuel : Nat} {acc cs rest : List Char} {c : Char}
    (hend : endOfLines '"' ('\\' :: cs) = none) (h : readEscape cs = some (c, rest)) :
    readBasicLines (fuel + 1) acc ('\\' :: cs) = readBasicLines fuel (c :: acc) rest := by
  simp [readBasicLines, hend, h]

/-- Only quotes are written as quotes alone. -/
theorem eq_replicate_of_escapeFrom {multiline : Bool} {quotes k : Nat} {cs : List Char}
    (h : escapeFrom multiline quotes cs = List.replicate k '"') : cs = List.replicate k '"' := by
  induction cs generalizing quotes k with
  | nil =>
    cases k with
    | zero => rfl
    | succ k => cases h
  | cons c cs ih =>
    obtain ⟨text, next, hwritten, htext⟩ := escapeFrom_cons multiline quotes c cs
    rw [htext] at h
    cases k with
    | zero =>
      have hlength := congrArg List.length h
      have hpos := hwritten.length_pos
      rw [List.length_append, List.replicate_zero, List.length_nil] at hlength
      omega
    | succ k =>
      rw [List.replicate_succ] at h
      cases hwritten with
      | quote hc =>
        rw [hc, List.replicate_succ, ih (List.cons.inj h).2]
      | plain hquote => exact absurd (List.cons.inj h).1 hquote
      | escape e => exact absurd (List.cons.inj h).1 (by decide)

/-- Three quotes are never written in a row, those right before being counted. -/
theorem not_prefix_escapeFrom {multiline : Bool} {quotes : Nat} (hquotes : quotes ≤ 2)
    (cs : List Char) : ¬List.replicate (3 - quotes) '"' <+: escapeFrom multiline quotes cs := by
  have hone : 3 - quotes = 2 - quotes + 1 := by omega
  rw [hone, List.replicate_succ]
  intro h
  cases cs with
  | nil => exact absurd (List.prefix_nil.mp h) (List.cons_ne_nil _ _)
  | cons c cs =>
    obtain ⟨text, next, hwritten, htext⟩ := escapeFrom_cons multiline quotes c cs
    rw [htext] at h
    cases hwritten with
    | quote hc hlines hless =>
      have hnext : 2 - quotes = 3 - (quotes + 1) := by omega
      rw [List.singleton_append, List.cons_prefix_cons, hnext] at h
      exact not_prefix_escapeFrom (by omega) cs h.2
    | plain hquote => exact hquote (List.cons_prefix_cons.mp h).1.symm
    | escape e => exact absurd (List.cons_prefix_cons.mp h).1 (by decide)

/-- A string in double quotes over several lines is read back. -/
theorem readBasicLines_escapeFrom {fuel : Nat} {cs : List Char} (hfuel : cs.length < fuel)
    {quotes : Nat} (hquotes : quotes ≤ 2) (acc : List Char) {rest : List Char}
    (hrest : rest.head? ≠ some '"') :
    readBasicLines fuel acc (escapeFrom true quotes cs ++ (List.replicate 3 '"' ++ rest)) =
      some (acc.reverse ++ cs, rest) := by
  -- The quotes already read are those that the writer has counted: three in a row can
  -- therefore begin only where what is left is quotes alone.
  induction cs generalizing fuel quotes acc with
  | nil =>
    obtain ⟨fuel, rfl⟩ := Nat.exists_eq_succ_of_ne_zero (Nat.ne_zero_of_lt hfuel)
    exact readBasicLines_end (endOfLines_quotes (Nat.zero_le 2) hrest)
  | cons c cs ih =>
    obtain ⟨fuel, rfl⟩ := Nat.exists_eq_succ_of_ne_zero (Nat.ne_zero_of_lt hfuel)
    have hthree : ¬List.replicate 3 '"' <+: escapeFrom true quotes (c :: cs) := fun h =>
      not_prefix_escapeFrom hquotes (c :: cs)
        ((List.prefix_replicate_iff.mpr ⟨by simp, by simp⟩).trans h)
    rcases endOfLines_cases hthree with ⟨k, hk, heq⟩ | hnone
    · rw [heq, eq_replicate_of_escapeFrom heq]
      exact readBasicLines_end (endOfLines_quotes hk hrest)
    · obtain ⟨text, next, hwritten, htext⟩ := escapeFrom_cons true quotes c cs
      have hback : acc.reverse ++ c :: cs = (c :: acc).reverse ++ cs := by simp
      have hend := hnone (List.replicate 3 '"' ++ rest)
      have hnext : next ≤ 2 := by cases hwritten <;> omega
      rw [htext, List.append_assoc] at hend ⊢
      rw [hback, ← ih (Nat.lt_of_succ_lt_succ hfuel) hnext (c :: acc)]
      cases hwritten with
      | quote hc =>
        subst hc
        exact readBasicLines_plain hend (by decide) (by decide)
      | plain hquote hback hcontrol => exact readBasicLines_plain hend hback fun h => (hcontrol h).2
      | escape e hread => exact readBasicLines_escape hend (hread _)

/-! ## Strings in any style -/

/-- What is written in double quotes on one line does not begin with a quote. -/
theorem head?_escapeFrom (cs : List Char) : (escapeFrom false 0 cs).head? ≠ some '"' := by
  cases cs with
  | nil => exact Option.some_ne_none '"' ∘ Eq.symm
  | cons c cs =>
    obtain ⟨text, next, hwritten, htext⟩ := escapeFrom_cons false 0 c cs
    rw [htext]
    cases hwritten with
    | quote _ hlines => cases hlines
    | plain hquote => simpa using hquote
    | escape e => simp

/-- An opening quote is not the first of three, if what follows it does not begin with a
quote. -/
theorem not_three_quotes {quote : Char} {cs rest : List Char} (hcs : cs.head? ≠ some quote)
    (hrest : rest.head? ≠ some quote) (ds : List Char)
    (h : cs ++ quote :: rest = quote :: quote :: ds) : False := by
  cases cs with
  | nil =>
    obtain ⟨-, h⟩ := List.cons.inj h
    exact hrest (by rw [h]; rfl)
  | cons c cs =>
    obtain ⟨rfl, -⟩ := List.cons.inj h
    exact hcs rfl

variable {cs rest : List Char}

/-- A string on one line is read back. -/
theorem readString_basic (hrest : rest.head? ≠ some '"') :
    readString ('"' :: (escapeFrom false 0 cs ++ '"' :: rest)) = some (cs, rest) := by
  have hopen := not_three_quotes (head?_escapeFrom cs) hrest
  have hfuel : cs.length < (escapeFrom false 0 cs ++ '"' :: rest).length + 1 := by
    have := length_le_escapeFrom false 0 cs
    rw [List.length_append]
    omega
  have hread := readBasic_escapeFrom hfuel 0 [] rest
  simpa [readString] using hread

/-- So is one without escapes. -/
theorem readString_literal (hquote : '\'' ∉ cs) (hcontrol : ∀ c ∈ cs, isControl c = false)
    (hrest : rest.head? ≠ some '\'') :
    readString ('\'' :: (cs ++ '\'' :: rest)) = some (cs, rest) := by
  have hopen := not_three_quotes (fun h => hquote (List.mem_of_head? h)) hrest
  have hread := readLiteral_append hquote hcontrol [] rest
  simpa [readString] using hread

/-- The line end at the beginning is skipped, and only if it has been added. -/
theorem skipFirstNewline_append {quote : Char} (hquote : quote ≠ '\n' ∧ quote ≠ '\r') (lines : Bool)
    (h : lines = false → ∀ c ∈ cs.head?, c ≠ '\n' ∧ c ≠ '\r') :
    skipFirstNewline ((if lines then ['\n'] else []) ++ (cs ++ (List.replicate 3 quote ++ rest))) =
      cs ++ (List.replicate 3 quote ++ rest) := by
  cases lines with
  | true => rfl
  | false =>
    have hhead : ∀ c ∈ (cs ++ (List.replicate 3 quote ++ rest)).head?, c ≠ '\n' ∧ c ≠ '\r' := by
      cases cs with
      | nil => simpa using hquote
      | cons c cs => simpa using h rfl
    have hnone : newline? (cs ++ (List.replicate 3 quote ++ rest)) = none := by
      unfold newline?
      split
      · next heq => exact absurd rfl (hhead '\n' (by rw [heq]; rfl)).1
      · next heq => exact absurd rfl (hhead '\r' (by rw [heq]; rfl)).2
      · rfl
    rw [if_neg Bool.false_ne_true, List.nil_append, skipFirstNewline, hnone, Option.getD_none]

theorem head?_escapeFrom_lines (h : cs.contains '\n' = false) :
    ∀ c ∈ (escapeFrom true 0 cs).head?, c ≠ '\n' ∧ c ≠ '\r' := by
  cases cs with
  | nil => simp [escapeFrom]
  | cons c cs =>
    have hline : c ≠ '\n' := by
      rintro rfl
      simp at h
    obtain ⟨text, next, hwritten, htext⟩ := escapeFrom_cons true 0 c cs
    rw [htext]
    cases hwritten with
    | quote hc => simp
    | plain _ _ hcontrol => simpa using ⟨hline, (stands_in_lines fun hc => (hcontrol hc).2).1⟩
    | escape e => simp

/-- So is one of several lines. -/
theorem readString_basicLines (hrest : rest.head? ≠ some '"') :
    readString ('"' :: '"' :: '"' :: ((if cs.contains '\n' then ['\n'] else []) ++
      (escapeFrom true 0 cs ++ (List.replicate 3 '"' ++ rest)))) = some (cs, rest) := by
  have hfuel : ∀ first : List Char,
      cs.length < (first ++ (escapeFrom true 0 cs ++ (List.replicate 3 '"' ++ rest))).length + 1 :=
    fun first => by
      have := length_le_escapeFrom true 0 cs
      rw [List.length_append, List.length_append]
      omega
  rw [readString, skipFirstNewline_append (by decide) _ head?_escapeFrom_lines]
  exact readBasicLines_escapeFrom (hfuel _) (Nat.zero_le 2) [] hrest

/-- So is one of several lines without escapes. -/
theorem readString_literalLines (hquotes : ¬List.replicate 3 '\'' <:+: cs)
    (hcontrol : ∀ c ∈ cs, isControl c = true → c = '\n') (hrest : rest.head? ≠ some '\'') :
    readString ('\'' :: '\'' :: '\'' :: ((if cs.contains '\n' then ['\n'] else []) ++
      (cs ++ (List.replicate 3 '\'' ++ rest)))) = some (cs, rest) := by
  have hfuel : ∀ first : List Char,
      cs.length < (first ++ (cs ++ (List.replicate 3 '\'' ++ rest))).length + 1 := fun first => by
    rw [List.length_append, List.length_append]
    omega
  have hhead : cs.contains '\n' = false → ∀ c ∈ cs.head?, c ≠ '\n' ∧ c ≠ '\r' := by
    intro hlines c hc
    have hmem : c ∈ cs := List.mem_of_head? hc
    have hline : c ≠ '\n' := by
      rintro rfl
      simp [hmem] at hlines
    exact ⟨hline, (stands_in_lines (hcontrol c hmem)).1⟩
  rw [readString, skipFirstNewline_append (by decide) _ hhead]
  exact readLiteralLines_append (hfuel _) hquotes hcontrol [] hrest

theorem eq_newline_of_isControl (h : hasControl cs = false) :
    ∀ c ∈ cs, isControl c = true → c = '\n' := by
  intro c hc hcontrol
  have hnot := List.any_eq_false.mp h c hc
  unfold isControl at hcontrol
  grind

/-- What is written begins with a quote. -/
theorem exists_writeIn_eq (cs : List Char) :
    ∃ quote ds, (quote = '"' ∨ quote = '\'') ∧ writeIn (styleOf cs) cs = quote :: ds := by
  have hquote : (styleOf cs).quote = '"' ∨ (styleOf cs).quote = '\'' := by
    unfold styleOf
    grind
  have hhead : (writeIn (styleOf cs) cs).head? = some (styleOf cs).quote := by
    cases hlines : (styleOf cs).multiline <;> simp [writeIn, hlines, List.replicate_succ]
  obtain ⟨ds, heq⟩ := List.head?_eq_some_iff.mp hhead
  exact ⟨_, ds, hquote, heq⟩

/-- **A string is read back**, in whichever style it is written. -/
theorem readString_writeIn (cs : List Char) (hdouble : rest.head? ≠ some '"')
    (hsingle : rest.head? ≠ some '\'') :
    readString (writeIn (styleOf cs) cs ++ rest) = some (cs, rest) := by
  -- One case for each style; what made the writer choose it is what its reader needs.
  unfold styleOf
  simp only
  split
  · simpa [writeIn] using readString_basic hdouble
  split
  · next h =>
    simp only [Bool.and_eq_true, Bool.not_eq_true', decide_eq_true_eq] at h
    obtain ⟨⟨hcontrol, hsingles⟩, hlines⟩ := h
    have hinside : ∀ c ∈ cs, isControl c = false := fun c hc => by
      rw [← Bool.not_eq_true]
      intro h
      rw [eq_newline_of_isControl hcontrol c hc h] at hc
      simp [hc] at hlines
    simpa [writeIn] using readString_literal (not_mem_of_longestRun hsingles) hinside hsingle
  split
  · simpa [writeIn, List.replicate_succ] using readString_basicLines hdouble
  split
  · next h =>
    simp only [Bool.and_eq_true, Bool.not_eq_true', decide_eq_true_eq] at h
    obtain ⟨hcontrol, hsingles⟩ := h
    have hquotes : ¬List.replicate 3 '\'' <:+: cs := fun hrun => by
      have := le_longestRun hrun
      omega
    have hread := readString_literalLines hquotes (eq_newline_of_isControl hcontrol) hsingle
    simpa [writeIn, List.replicate_succ] using hread
  · cases cs.contains '\n' with
    | true => simpa [writeIn, List.replicate_succ] using readString_basicLines hdouble
    | false => simpa [writeIn] using readString_basic hdouble

end LintPatrol.Toml
