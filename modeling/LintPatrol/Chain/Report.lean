import LintPatrol.Failure

/-!
# LintPatrol.Chain.Report

What failed in a tree of work.  A piece of work fails by itself, or because
several of the pieces it is made of failed; `join` puts the reports of the
pieces together, in their order, and `leaves` takes them apart again.
-/

namespace LintPatrol

/-- A report of failed work. -/
inductive Report where
  | own (failure : Failure)
  | joined (parts : List Report)
deriving Repr, Inhabited

namespace Report

mutual

/-- The report as one failure.  That of several pieces has no cause; its
message holds the reports of the pieces in full. -/
def failure : Report → Failure
  | own f => f
  | joined parts => .plain (Text.joined "; " (fullTexts parts))

/-- The reports of several pieces in full. -/
def fullTexts : List Report → List String
  | [] => []
  | r :: rs => r.failure.full :: fullTexts rs

end

mutual

/-- The failures of the single pieces of work. -/
def leaves : Report → List Failure
  | own f => [f]
  | joined parts => leavesOf parts

/-- The failures of the single pieces of work in several reports. -/
def leavesOf : List Report → List Failure
  | [] => []
  | r :: rs => r.leaves ++ leavesOf rs

end

/-- The report of several pieces: none if nothing failed, and that of the one
piece that failed as it is. -/
def join : List Report → Option Report
  | [] => none
  | [r] => some r
  | rs => some (joined rs)

theorem leavesOf_eq_flatMap (rs : List Report) : leavesOf rs = rs.flatMap leaves := by
  induction rs with
  | nil => rfl
  | cons r rs ih => rw [leavesOf, ih, List.flatMap_cons]

/-- Joining loses no failure and adds none. -/
theorem leaves_join (rs : List Report) : (join rs).elim [] leaves = rs.flatMap leaves := by
  match rs with
  | [] => rfl
  | [r] => simp [join]
  | r :: r' :: rs =>
    show (joined (r :: r' :: rs)).leaves = _
    rw [leaves, leavesOf_eq_flatMap]

/-- Only from no reports at all there comes no report. -/
theorem join_eq_none_iff (rs : List Report) : join rs = none ↔ rs = [] := by
  match rs with
  | [] => simp [join]
  | [r] => simp [join]
  | r :: r' :: rs => simp [join]

/-- What is reported of an item whose processing ended without a report. -/
def dropped : Report := own (.plain "Trigger dropped before completion")

end Report

end LintPatrol
