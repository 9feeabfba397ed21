import LintPatrol.Proofs.Chain.Step
import Mathlib.Data.List.Forall2

/-!
# LintPatrol.Proofs.Chain.Work

The tree of work that an item leads to: the body of a stage ran with it,
failed by itself or did not, and handed items on, of which each is the root of
a tree one stage further down.  Behind the last stage nothing is done with an
item.

A tree says which report is due on its root (`Work.Reports`), apart from
whether a stage is said to have exceeded its timeout.  What follows for the
report speaks of the tree alone.

## Main statements

* `Work.Reports.eq_none_iff`: there is nothing to report just if no body
  failed.
* `Work.Reports.leaves`: the failures of the single pieces of work are those
  of the bodies, depth first.
-/

namespace LintPatrol.Chain

variable {α : Type}

/-! ## bodies -/

/-- What acts may come to: the items handed on, and the failure they end
with. -/
inductive Yields : List (Act α) → List α → Option Failure → Prop
  | nil : Yields [] [] none
  | fail (reason : Failure) (left : List (Act α)) : Yields (.fail reason :: left) [] (some reason)
  | expire (length : Nat) (left : List (Act α)) :
    Yields (.scopeSleep length :: left) [] (some (.plain Scope.expiredMessage))
  | produce (items : List α) {left : List (Act α)} {more : List α} {own : Option Failure}
    (h : Yields left more own) : Yields (.produce items :: left) (items ++ more) own
  | pass {act : Act α} (hq : act.isQuiet = true) {left : List (Act α)} {items : List α}
    {own : Option Failure} (h : Yields left items own) : Yields (act :: left) items own

/-! ## trees -/

/-- The work that an item led to. -/
inductive Work (α : Type) where
  | node (item : α) (own : Option Failure) (parts : List (Work α))

namespace Work

def item : Work α → α
  | node item _ _ => item

def own : Work α → Option Failure
  | node _ own _ => own

/-- The work that the items led to that were handed on at the root. -/
def parts : Work α → List (Work α)
  | node _ _ parts => parts

/-- The work so many stages further down. -/
def level : Nat → Work α → List (Work α)
  | 0, w => [w]
  | i + 1, w => w.parts.flatMap (level i)

/-- The failures of the bodies, depth first and each with its stage: that of a
body before those of what it handed on. -/
def failures : List (Stage α) → Work α → List (Stage α × Failure)
  | [], _ => []
  | s :: rest, w => (w.own.map fun f => (s, f)).toList ++ w.parts.flatMap (failures rest)

/-- The bodies of the stages may have done this. -/
def Fits : List (Stage α) → Work α → Prop
  | [], w => w.own = none ∧ w.parts = []
  | s :: rest, w =>
    (∃ k, Yields (s.body w.item k) (w.parts.map item) w.own) ∧ ∀ p ∈ w.parts, Fits rest p

/-- The report is due on the work, whether or not stages are said to have
exceeded their timeouts. -/
def Reports : List (Stage α) → Work α → Option Report → Prop
  | [], _, report => report = none
  | s :: rest, w, report =>
    ∃ (stageExpired itemExpired : Bool) (reports : List (Option Report)),
      List.Forall₂ (Reports rest) w.parts reports ∧
        report = reportOf (w.own.map (blame s.name s.timeout stageExpired itemExpired)) reports

end Work

/-! ## reports -/

/-- The failures in a report, if there is one. -/
def leaves (report : Option Report) : List Failure := report.elim [] Report.leaves

/-- The failures in a report are that of the body itself and then those in the reports
on the parts. -/
theorem leaves_reportOf (own : Option Failure) (reports : List (Option Report)) :
    leaves (reportOf own reports) = own.toList ++ reports.flatMap leaves := by
  have hr : (reports.filterMap id).flatMap Report.leaves = reports.flatMap leaves := by
    induction reports with
    | nil => rfl
    | cons r reports ih => cases r <;> simpa [leaves] using ih
  rw [leaves, reportOf, Report.leaves_join, List.flatMap_append, hr]
  cases own <;> simp [Report.leaves]

/-- Nothing is reported just if neither the body nor any part has failed. -/
theorem reportOf_eq_none_iff (own : Option Failure) (reports : List (Option Report)) :
    reportOf own reports = none ↔ own = none ∧ ∀ r ∈ reports, r = none := by
  rw [reportOf, Report.join_eq_none_iff, List.append_eq_nil_iff, List.filterMap_eq_nil_iff]
  cases own <;> simp

namespace Work

/-- The failure is reported under the name of the stage. -/
def Blames (leaf : Failure) (failure : Stage α × Failure) : Prop :=
  ∃ stageExpired itemExpired : Bool,
    leaf = blame failure.1.name failure.1.timeout stageExpired itemExpired failure.2

/-- **The failures in the report are those of the bodies, depth first.** -/
theorem Reports.leaves {stages : List (Stage α)} {w : Work α} {report : Option Report}
    (h : w.Reports stages report) : List.Forall₂ Blames (leaves report) (w.failures stages) := by
  induction stages generalizing w report with
  | nil =>
    cases h
    exact .nil
  | cons s rest ih =>
    obtain ⟨stageExpired, itemExpired, reports, hp, rfl⟩ := h
    rw [leaves_reportOf, failures]
    generalize w.parts = parts at hp
    refine List.rel_append ?_ ?_
    · cases w.own with
      | none => exact .nil
      | some f => exact .cons ⟨stageExpired, itemExpired, rfl⟩ .nil
    · induction hp with
      | nil => exact .nil
      | cons hr _ ihp => exact List.rel_append (ih hr) ihp

/-- **Nothing is reported just if no body failed.** -/
theorem Reports.eq_none_iff {stages : List (Stage α)} {w : Work α} {report : Option Report}
    (h : w.Reports stages report) : report = none ↔ w.failures stages = [] := by
  induction stages generalizing w report with
  | nil => exact ⟨fun _ => rfl, fun _ => h⟩
  | cons s rest ih =>
    obtain ⟨stageExpired, itemExpired, reports, hp, rfl⟩ := h
    have hparts : (∀ r ∈ reports, r = none) ↔ w.parts.flatMap (failures rest) = [] := by
      generalize w.parts = parts at hp
      induction hp with
      | nil => simp
      | cons hr _ ihp => simp [ih hr, ihp]
    rw [reportOf_eq_none_iff, failures, List.append_eq_nil_iff, hparts]
    cases w.own <;> simp

/-- No body failed at any level just if there are no failures. -/
theorem Fits.failures_eq_nil_iff {stages : List (Stage α)} {w : Work α} (h : w.Fits stages) :
    w.failures stages = [] ↔ ∀ i, ∀ v ∈ w.level i, v.own = none := by
  induction stages generalizing w with
  | nil =>
    obtain ⟨ho, hp⟩ := h
    refine ⟨fun _ i v hv => ?_, fun _ => rfl⟩
    cases i with
    | zero => rwa [List.mem_singleton.mp hv]
    | succ i => simp [level, hp] at hv
  | cons s rest ih =>
    obtain ⟨-, hparts⟩ := h
    have hlevels : (∀ i, ∀ v ∈ w.level i, v.own = none) ↔
        w.own = none ∧ ∀ p ∈ w.parts, ∀ i, ∀ v ∈ p.level i, v.own = none := by
      constructor
      · intro hv
        refine ⟨hv 0 w (List.mem_singleton_self w), fun p hp i v hm => ?_⟩
        exact hv (i + 1) v (List.mem_flatMap.mpr ⟨p, hp, hm⟩)
      · rintro ⟨ho, hv⟩ i v hm
        cases i with
        | zero => rwa [List.mem_singleton.mp hm]
        | succ i =>
          obtain ⟨p, hp, hm⟩ := List.mem_flatMap.mp hm
          exact hv p hp i v hm
    rw [hlevels, failures, List.append_eq_nil_iff, List.flatMap_eq_nil_iff]
    have hown : (w.own.map fun f => (s, f)).toList = [] ↔ w.own = none := by
      cases w.own <;> simp
    rw [hown]
    exact and_congr_right fun _ => forall₂_congr fun p hp => ih (hparts p hp)

end Work

end LintPatrol.Chain
