import LintPatrol.Text.Split

/-!
# LintPatrol.Proofs.Text.Split

Cutting undoes joining where the separator occurs in none of the parts:

* `splitAt_join`: pieces that are joined are found again;
* `cutAt_append`: the first part ends where the word begins, if the character
  that the word begins with does not occur in it.  What follows the word may
  hold it again.
-/

namespace LintPatrol.Text

/-! ## Joining -/

@[simp] theorem join_nil (sep : List Char) : join sep [] = [] := rfl

@[simp] theorem join_singleton (sep p : List Char) : join sep [p] = p := by simp [join]

theorem join_cons_cons (sep p q : List Char) (ps : List (List Char)) :
    join sep (p :: q :: ps) = p ++ sep ++ join sep (q :: ps) := by simp [join]

/-- What occurs in no piece, nor in what stands between them, does not occur in
the whole. -/
theorem not_mem_join {sep : List Char} {ps : List (List Char)} {c : Char} (hsep : c ∉ sep)
    (hps : ∀ p ∈ ps, c ∉ p) : c ∉ join sep ps := by
  induction ps with
  | nil => simp
  | cons p ps ih =>
    have hp : c ∉ p := hps p List.mem_cons_self
    cases ps with
    | nil => simpa using hp
    | cons q ps =>
      have hrest := ih fun r hr => hps r (List.mem_cons_of_mem _ hr)
      simp [join_cons_cons, hp, hsep, hrest]

/-! ## Splitting -/

/-- A character that separates nothing belongs to the first piece. -/
theorem splitAt_cons_of_ne {sep c : Char} (h : c ≠ sep) {cs p : List Char} {ps : List (List Char)}
    (hrest : splitAt sep cs = p :: ps) : splitAt sep (c :: cs) = (c :: p) :: ps := by
  rw [splitAt] at hrest ⊢
  rw [splitWhere, if_neg (by simpa using h), hrest]

/-- A text without the separator is one piece. -/
theorem splitAt_of_not_mem {sep : Char} {cs : List Char} (h : sep ∉ cs) :
    splitAt sep cs = [cs] := by
  induction cs with
  | nil => rfl
  | cons c cs ih =>
    rw [List.mem_cons, not_or] at h
    obtain ⟨hc, hcs⟩ := h
    exact splitAt_cons_of_ne (Ne.symm hc) (ih hcs)

/-- Every text has a piece. -/
theorem splitAt_ne_nil (sep : Char) (cs : List Char) : splitAt sep cs ≠ [] := by
  rw [splitAt]
  cases cs with
  | nil => simp [splitWhere]
  | cons c cs =>
    rw [splitWhere]
    split
    · simp
    · split <;> simp

/-- A separator cuts a text in two. -/
theorem splitAt_append_cons (sep : Char) (cs rest : List Char) :
    splitAt sep (cs ++ sep :: rest) = splitAt sep cs ++ splitAt sep rest := by
  induction cs with
  | nil => simp [splitAt, splitWhere]
  | cons c cs ih =>
    by_cases hc : c = sep
    · subst hc
      simpa [splitAt, splitWhere] using ih
    · obtain ⟨p, ps, hcut⟩ := List.exists_cons_of_ne_nil (splitAt_ne_nil sep cs)
      have hrest : splitAt sep (cs ++ sep :: rest) = p :: (ps ++ splitAt sep rest) := by
        rw [ih, hcut, List.cons_append]
      rw [splitAt_cons_of_ne hc hcut, List.cons_append, splitAt_cons_of_ne hc hrest,
        List.cons_append]

/-- The first separator ends the first piece. -/
theorem splitAt_append {sep : Char} {cs : List Char} (h : sep ∉ cs) (rest : List Char) :
    splitAt sep (cs ++ sep :: rest) = cs :: splitAt sep rest := by
  rw [splitAt_append_cons, splitAt_of_not_mem h, List.singleton_append]

/-- **Splitting undoes joining.** -/
theorem splitAt_join {sep : Char} {ps : List (List Char)} (hne : ps ≠ [])
    (hps : ∀ p ∈ ps, sep ∉ p) : splitAt sep (join [sep] ps) = ps := by
  induction ps with
  | nil => contradiction
  | cons p ps ih =>
    have hp : sep ∉ p := hps p List.mem_cons_self
    cases ps with
    | nil => rw [join_singleton, splitAt_of_not_mem hp]
    | cons q ps =>
      have hrest := ih (List.cons_ne_nil q ps) fun r hr => hps r (List.mem_cons_of_mem _ hr)
      rw [join_cons_cons, List.append_assoc, List.singleton_append, splitAt_append hp, hrest]

/-! ## Cutting -/

/-- A text that begins otherwise does not begin with the word. -/
theorem after?_cons_of_ne {a c : Char} (h : a ≠ c) (w cs : List Char) :
    after? (a :: w) (c :: cs) = none := by rw [after?, if_neg h]

/-- What stands behind a word is found. -/
theorem after?_append (w rest : List Char) : after? w (w ++ rest) = some rest :=
  after?_eq_some_iff.mpr rfl

/-- **The first occurrence of a word is where it was put**, behind a text in which
the character that it begins with does not occur. -/
theorem cutAt_append {a : Char} {cs : List Char} (h : a ∉ cs) (w rest : List Char) :
    cutAt (a :: w) (cs ++ (a :: w ++ rest)) = some (cs, rest) := by
  induction cs with
  | nil =>
    rw [List.nil_append, List.cons_append, cutAt, ← List.cons_append, after?_append]
  | cons c cs ih =>
    rw [List.mem_cons, not_or] at h
    obtain ⟨hc, hcs⟩ := h
    rw [List.cons_append, cutAt, after?_cons_of_ne hc, ih hcs]
    rfl

/-- A text begins with a word just if the word is a first part of it. -/
theorem startsWith_iff {w cs : List Char} : startsWith w cs = true ↔ w <+: cs := by
  rw [startsWith, Option.isSome_iff_exists]
  constructor
  · rintro ⟨rest, h⟩
    exact ⟨rest, (after?_eq_some_iff.mp h).symm⟩
  · rintro ⟨rest, h⟩
    exact ⟨rest, after?_eq_some_iff.mpr h.symm⟩

/-- Nothing stands behind a word that the text does not begin with. -/
theorem after?_eq_none_iff {w cs : List Char} : after? w cs = none ↔ ¬w <+: cs := by
  rw [← startsWith_iff, startsWith, Option.not_isSome_iff_eq_none]

end LintPatrol.Text
