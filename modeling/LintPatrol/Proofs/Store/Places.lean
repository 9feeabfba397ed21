import LintPatrol.Proofs.Store.Table
import LintPatrol.Store.Moderation

/-!
# LintPatrol.Proofs.Store.Places

One row for each place.  `collapse` keeps the finding that is shown there and
`highest` the highest verdict; the verdict on the finding that is shown is the
highest one (`map_collapse`).  Which finding is shown depends on the order of the
findings, but which verdict is the highest does not (`highest_perm`).
-/

namespace LintPatrol

namespace Verdict

theorem max_right_comm (u v w : Verdict) : max (max u v) w = max (max u w) v := by
  cases u <;> cases v <;> cases w <;> rfl

/-- No verdict is lower than `rejected`. -/
@[simp] theorem rejected_max (v : Verdict) : max rejected v = v := by
  cases v <;> rfl

end Verdict

namespace Store

/-! ## The finding that is shown -/

theorem location_shown {old new : StoredFinding} (h : old.location = new.location) :
    (shown old new).location = new.location := by
  unfold shown
  split
  · exact h
  · rfl

/-- Of two findings the one that is shown has the higher verdict. -/
theorem status_shown (old new : StoredFinding) :
    (shown old new).moderation.status = max old.moderation.status new.moderation.status := by
  unfold shown
  cases hold : old.moderation.status <;> cases hnew : new.moderation.status <;>
    first | exact hold | exact hnew

/-! ## One row for each place -/

/-- To collapse findings is to put them into a table by their places. -/
theorem collapse_eq_putAll (fs : List StoredFinding) :
    collapse fs = putAll StoredFinding.location StoredFinding.location
      (fun f old => (old.map (shown · f)).getD f) fs := rfl

/-- So it is to look for the highest verdict of each. -/
theorem highest_eq_putAll (fs : List StoredFinding) :
    highest fs = putAll Prod.fst StoredFinding.location
      (fun f old => (f.location, max ((old.map (·.2)).getD .rejected) f.moderation.status)) fs :=
  rfl

/-- The verdicts on the findings that are shown are the highest ones. -/
theorem map_collapse (fs : List StoredFinding) :
    (collapse fs).map (fun f => (f.location, f.moderation.status)) = highest fs := by
  rw [collapse_eq_putAll, highest_eq_putAll]
  apply map_putAll
  case hkey => exact fun f => rfl
  case hupdate =>
    intro f old hold
    cases old with
    | none => simp
    | some old =>
      have hloc : old.location = f.location := hold old rfl
      simp [location_shown hloc, status_shown]

/-- The highest verdict at a place does not depend on which finding there came
first. -/
theorem highest_perm {fs gs : List StoredFinding} (h : fs.Perm gs) :
    (highest fs).Perm (highest gs) := by
  rw [highest_eq_putAll, highest_eq_putAll]
  refine putAll_perm (fun f o _ => rfl) (fun f g o hloc => ?_) h
  simp [hloc, Verdict.max_right_comm]

/-- The verdicts on the findings that are shown, in the order of places. -/
theorem verdicts_places (fs : List StoredFinding) :
    ((places fs).map (·.moderation.status)).Perm ((highest fs).map (·.2)) := by
  have hsort := (List.mergeSort_perm (collapse fs) fun a b =>
    !(b.location.isBefore a.location)).map fun f => (f.location, f.moderation.status)
  rw [map_collapse] at hsort
  simpa [places, Function.comp_def] using hsort.map Prod.snd

end Store

end LintPatrol
