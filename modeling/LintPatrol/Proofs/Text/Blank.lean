import LintPatrol.Text.Blank

/-!
# LintPatrol.Proofs.Text.Blank

Trimming takes off white space and nothing else (`exists_trim`), and all of it
at the beginning (`isBlank_of_trim_eq_cons`).  Making letters small changes
letters only, so it makes no difference whether it is done before or after
(`trim_map_asciiLower`).
-/

namespace LintPatrol.Text

/-! ## Small letters -/

/-- Only a capital letter is changed, and becomes a small one. -/
theorem asciiLower_cases (c : Char) :
    asciiLower c = c ∨
      ('A' ≤ c ∧ c ≤ 'Z') ∧ 'a' ≤ asciiLower c ∧ asciiLower c ≤ 'z' := by
  by_cases hc : 'A' ≤ c ∧ c ≤ 'Z'
  · have hlow : 65 ≤ c.toNat := hc.1
    have hhigh : c.toNat < 91 := Nat.lt_succ_of_le hc.2
    have hall : ∀ n < 91, 65 ≤ n → 'a' ≤ Char.ofNat (n + 32) ∧ Char.ofNat (n + 32) ≤ 'z' := by
      decide
    right
    rw [asciiLower, if_pos hc]
    exact ⟨hc, hall _ hhigh hlow⟩
  · left
    rw [asciiLower, if_neg hc]

/-- White space has no letters. -/
theorem isBlank_asciiLower (c : Char) : isBlank (asciiLower c) = isBlank c := by
  rcases asciiLower_cases c with h | ⟨hcapital, hsmall⟩
  · rw [h]
  · rw [isBlank_of_between 'A' 'Z' (by decide) hcapital,
      isBlank_of_between 'a' 'z' (by decide) hsmall]

/-- The character before was the same or its capital letter. -/
theorem eq_or_eq_of_asciiLower {c d : Char} (h : asciiLower c = d) :
    c = d ∨ c = Char.ofNat (d.toNat - 32) := by
  rw [asciiLower] at h
  split at h
  · next hcapital =>
    have hhigh : c.toNat < 91 := Nat.lt_succ_of_le hcapital.2
    have hall : ∀ n < 91, 65 ≤ n →
        Char.ofNat n = Char.ofNat ((Char.ofNat (n + 32)).toNat - 32) := by
      decide
    right
    rw [← h, ← hall _ hhigh hcapital.1, Char.ofNat_toNat]
  · left
    exact h

/-- What is no small letter afterwards was the same before. -/
theorem eq_of_map_asciiLower {cs ds : List Char} (h : cs.map asciiLower = ds)
    (hds : ∀ d ∈ ds, ¬('a' ≤ d ∧ d ≤ 'z')) : cs = ds := by
  subst h
  have hself : ∀ c ∈ cs, asciiLower c = c := fun c hc =>
    (asciiLower_cases c).resolve_right fun hsmall =>
      hds _ (List.mem_map_of_mem hc) hsmall.2
  rw [List.map_congr_left hself, List.map_id']

/-! ## Trimming -/

/-- What is trimmed off the end is white space. -/
theorem exists_trimEnd (cs : List Char) :
    ∃ after, cs = trimEnd cs ++ after ∧ ∀ c ∈ after, isBlank c = true := by
  have hblank := List.all_eq_true.mp (List.all_takeWhile (p := isBlank) (l := cs.reverse))
  have hcut : (trimEnd cs ++ (cs.reverse.takeWhile isBlank).reverse).reverse = cs.reverse := by
    simp [trimEnd, List.takeWhile_append_dropWhile]
  exact ⟨_, (List.reverse_inj.mp hcut).symm, fun c hc => hblank c (List.mem_reverse.mp hc)⟩

/-- What is trimmed off is white space. -/
theorem exists_trim (cs : List Char) :
    ∃ before after, cs = before ++ trim cs ++ after ∧ (∀ c ∈ before, isBlank c = true) ∧
      ∀ c ∈ after, isBlank c = true := by
  have hblank := List.all_eq_true.mp (List.all_takeWhile (p := isBlank) (l := cs))
  have hcut : cs.takeWhile isBlank ++ trimStart cs = cs := List.takeWhile_append_dropWhile
  obtain ⟨after, hend, hafter⟩ := exists_trimEnd (trimStart cs)
  have hcs : cs = cs.takeWhile isBlank ++ trim cs ++ after := by
    rw [List.append_assoc, trim, ← hend, hcut]
  exact ⟨_, after, hcs, hblank, hafter⟩

/-- A trimmed text does not begin with white space. -/
theorem isBlank_of_trim_eq_cons {cs rest : List Char} {c : Char} (h : trim cs = c :: rest) :
    isBlank c = false := by
  obtain ⟨after, hend, -⟩ := exists_trimEnd (trimStart cs)
  have hhead : (cs.dropWhile isBlank).head? = some c := by
    rw [trim] at h
    rw [← trimStart, hend, h]
    rfl
  have hnot := List.head?_dropWhile_not isBlank cs
  rw [hhead] at hnot
  exact hnot

/-- White space at the end is trimmed off. -/
theorem trim_append_blanks (cs : List Char) {gap : List Char}
    (hgap : ∀ c ∈ gap, isBlank c = true) : trim (cs ++ gap) = trim cs := by
  have hgap' : ∀ c ∈ gap.reverse, isBlank c = true := by simpa using hgap
  have hnil : (gap ++ []).dropWhile isBlank = [] := List.dropWhile_append_of_pos hgap
  have hend (ds : List Char) : trimEnd (ds ++ gap) = trimEnd ds := by
    rw [trimEnd, List.reverse_append, List.dropWhile_append_of_pos hgap', trimEnd]
  rw [trim, trimStart, List.dropWhile_append]
  split
  · next hcs =>
    rw [List.append_nil] at hnil
    rw [trim, trimStart, hnil, List.isEmpty_iff.mp hcs]
  · rw [hend, trim, trimStart]

theorem trim_map_asciiLower (cs : List Char) :
    trim (cs.map asciiLower) = (trim cs).map asciiLower := by
  have hblank : isBlank ∘ asciiLower = isBlank := funext isBlank_asciiLower
  simp only [trim, trimEnd, trimStart, List.dropWhile_map, ← List.map_reverse, hblank]

end LintPatrol.Text
