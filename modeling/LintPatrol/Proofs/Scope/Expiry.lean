import LintPatrol.Scope.Basic

/-!
# LintPatrol.Proofs.Scope.Expiry

A scope that is at its end stays so: the clock never goes back, and what has
been cancelled is never taken back (`Timeline.Leads`).
-/

namespace LintPatrol.Timeline

open Time

/-- The one timeline may become the other: time has passed, and more has been
cancelled. -/
structure Leads (t t' : Timeline) : Prop where
  now_le : t.now ≤ t'.now
  cancelled : t.cancelled ⊆ t'.cancelled

namespace Leads

variable {t t' t'' : Timeline} {s : Scope} {token : Token}

theorem refl (t : Timeline) : t.Leads t := ⟨Nat.le_refl _, List.Subset.refl _⟩

/-- What is later than later is later. -/
theorem trans (h : t.Leads t') (h' : t'.Leads t'') : t.Leads t'' :=
  ⟨Nat.le_trans h.now_le h'.now_le, List.Subset.trans h.cancelled h'.cancelled⟩

/-- To cancel something takes nothing back. -/
theorem cancel (t : Timeline) (token : Token) : t.Leads (t.cancel token) :=
  ⟨Nat.le_refl _, List.subset_cons_self ..⟩

/-- Nor does the passing of time. -/
theorem advanceTo (t : Timeline) (moment : Nat) : t.Leads (t.advanceTo moment) :=
  ⟨Nat.le_max_left .., List.subset_append_right ..⟩

/-- Nor does a new scope. -/
theorem child (t : Timeline) (s : Scope) (timeout : Duration) : t.Leads (t.child s timeout).2 :=
  ⟨Nat.le_refl _, List.Subset.refl _⟩

/-- What has been cancelled stays so. -/
theorem isCancelled (h : t.Leads t') (hc : t.isCancelled token = true) :
    t'.isCancelled token = true := by
  obtain ⟨c, hmem, hsuffix⟩ := List.any_eq_true.mp hc
  exact List.any_eq_true.mpr ⟨c, h.cancelled hmem, hsuffix⟩

/-- A deadline that has passed stays so. -/
theorem isPast (h : t.Leads t') (hp : t.isPast s = true) : t'.isPast s = true := by
  unfold Timeline.isPast at hp ⊢
  cases hd : s.deadline with
  | none => simp [hd] at hp
  | some d =>
    simp only [hd, decide_eq_true_eq] at hp ⊢
    exact Nat.le_trans hp h.now_le

/-- **A scope at its end stays there.** -/
theorem isExpired (h : t.Leads t') (he : t.isExpired s = true) : t'.isExpired s = true := by
  unfold Timeline.isExpired at he ⊢
  rw [Bool.or_eq_true] at he ⊢
  exact he.imp h.isCancelled h.isPast

end Leads

/-! ## what ends a scope -/

/-- The moment at which a timeout ends that begins at a moment, unless the
clock cannot show it. -/
def limit? (moment : Nat) (timeout : Duration) : Option Nat :=
  if moment + timeout.nanos < clockLimit then some (moment + timeout.nanos) else none

theorem deadlineAfter_eq (t : Timeline) (timeout : Duration) :
    t.deadlineAfter timeout = limit? t.now timeout := rfl

/-- A deadline has passed from its very moment on. -/
theorem isPast_iff (t : Timeline) (s : Scope) :
    t.isPast s = true ↔ ∃ d, s.deadline = some d ∧ d ≤ t.now := by
  unfold isPast
  cases s.deadline <;> simp

/-- A token is cancelled with every token that it descends from. -/
theorem isCancelled_iff (t : Timeline) (token : Token) :
    t.isCancelled token = true ↔ ∃ c ∈ t.cancelled, c <:+ token := by
  simp [isCancelled]

/-- To cancel a token cancels just those that descend from it. -/
theorem isCancelled_cancel_iff (t : Timeline) (c token : Token) :
    (t.cancel c).isCancelled token = true ↔ c <:+ token ∨ t.isCancelled token = true := by
  simp [isCancelled, cancel]

/-- A scope within another one is at its end if that one has been cancelled. -/
theorem isExpired_of_suffix {t : Timeline} {token : Token} {s : Scope}
    (h : t.isCancelled token = true) (hs : token <:+ s.token) : t.isExpired s = true := by
  obtain ⟨c, hmem, hsuffix⟩ := (isCancelled_iff ..).mp h
  have hc : t.isCancelled s.token = true := (isCancelled_iff ..).mpr ⟨c, hmem, hsuffix.trans hs⟩
  rw [isExpired, hc, Bool.true_or]

end LintPatrol.Timeline
