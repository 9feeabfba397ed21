import Mathlib.Data.List.Basic

/-!
# LintPatrol.Proofs.Order.Sort

Sorting keeps the order of elements that may stand either way.  Such elements are
`tied`; those tied with one element come out of a sort as they went in
(`filter_tied_mergeSort`), and a list in order is determined by the elements tied
with each (`eq_of_filter_tied`).

## Main statements

* `eq_mergeSort`: what the sorted list is.
* `pairwise_mergeSort_stable`: what sorting keeps of the order before.
-/

namespace LintPatrol

variable {α : Type} {le : α → α → Bool} {l l' : List α}

/-- May the elements stand either way? -/
def tied (le : α → α → Bool) (a x : α) : Bool := le x a && le a x

theorem tied_iff {a x : α} : tied le a x = true ↔ le x a = true ∧ le a x = true := by
  rw [tied, Bool.and_eq_true]

/-- Lists in order are equal if the elements tied with each are. -/
theorem eq_of_filter_tied (total : ∀ a b, (le a b || le b a) = true)
    (hl : l.Pairwise (le · ·)) (hl' : l'.Pairwise (le · ·))
    (h : ∀ a, l.filter (tied le a) = l'.filter (tied le a)) : l = l' := by
  have hrefl : ∀ a, le a a = true := fun a => by simpa using total a a
  have hself : ∀ a, tied le a a = true := fun a => tied_iff.mpr ⟨hrefl a, hrefl a⟩
  induction l generalizing l' with
  | nil =>
    cases l' with
    | nil => rfl
    | cons b l' => simpa [hself] using h b
  | cons a l ih =>
    cases l' with
    | nil => simpa [hself] using h a
    | cons b l' =>
      rw [List.pairwise_cons] at hl hl'
      -- Each of the first elements occurs in the other list, behind its first one.
      have hab : le a b = true := by
        have hmem : b ∈ (a :: l).filter (tied le b) := by simp [h b, hself]
        rcases List.mem_cons.mp (List.mem_of_mem_filter hmem) with rfl | hmem
        · exact hrefl _
        · exact hl.1 b hmem
      have hba : le b a = true := by
        have hmem : a ∈ (b :: l').filter (tied le a) := by simp [← h a, hself]
        rcases List.mem_cons.mp (List.mem_of_mem_filter hmem) with rfl | hmem
        · exact hrefl _
        · exact hl'.1 a hmem
      have hfirst := h a
      rw [List.filter_cons_of_pos (hself a),
        List.filter_cons_of_pos (tied_iff.mpr ⟨hba, hab⟩)] at hfirst
      obtain ⟨rfl, -⟩ := List.cons.inj hfirst
      refine congrArg _ (ih hl.2 hl'.2 fun c => ?_)
      have hc := h c
      by_cases hac : tied le c a = true
      · rw [List.filter_cons_of_pos hac, List.filter_cons_of_pos hac] at hc
        exact (List.cons.inj hc).2
      · rwa [List.filter_cons_of_neg hac, List.filter_cons_of_neg hac] at hc

section Sorting

variable (trans : ∀ a b c, le a b = true → le b c = true → le a c = true)
  (total : ∀ a b, (le a b || le b a) = true)
include trans total

/-- The elements tied with one come out of the sort as they went in. -/
theorem filter_tied_mergeSort (l : List α) (a : α) :
    (l.mergeSort le).filter (tied le a) = l.filter (tied le a) := by
  have hsorted : (l.filter (tied le a)).Pairwise fun x y => le x y = true := by
    refine List.pairwise_of_forall_mem_list fun x hx y hy => ?_
    exact trans x a y (tied_iff.mp (List.mem_filter.mp hx).2).1
      (tied_iff.mp (List.mem_filter.mp hy).2).2
  have hkept : (l.filter (tied le a)).Sublist ((l.mergeSort le).filter (tied le a)) := by
    have := (List.sublist_mergeSort trans total hsorted List.filter_sublist).filter (tied le a)
    rw [List.filter_filter] at this
    simpa only [Bool.and_self] using this
  exact (hkept.eq_of_length ((List.mergeSort_perm l le).filter _).length_eq.symm).symm

/-- **A list is the sorted one** if it is in order and has the elements tied with
each as they went in. -/
theorem eq_mergeSort (hsorted : l'.Pairwise (le · ·))
    (h : ∀ a, l'.filter (tied le a) = l.filter (tied le a)) : l' = l.mergeSort le :=
  eq_of_filter_tied total hsorted (List.pairwise_mergeSort trans total l) fun a => by
    rw [h, filter_tied_mergeSort trans total]

/-- **Sorting keeps the order** of elements that may stand either way. -/
theorem pairwise_mergeSort_stable {R : α → α → Prop} (h : l.Pairwise R) :
    (l.mergeSort le).Pairwise fun a b => le a b = true ∧ (le b a = true → R a b) := by
  rw [List.pairwise_iff_forall_sublist]
  intro a b hab
  have hle : le a b = true :=
    List.pairwise_iff_forall_sublist.mp (List.pairwise_mergeSort trans total l) hab
  refine ⟨hle, fun hge => List.pairwise_iff_forall_sublist.mp h ?_⟩
  have haa : le a a = true := by simpa using total a a
  have hpair : [a, b].filter (tied le a) = [a, b] := by simp [tied, haa, hle, hge]
  have hkept := hab.filter (tied le a)
  rw [hpair, filter_tied_mergeSort trans total] at hkept
  exact hkept.trans List.filter_sublist

end Sorting

end LintPatrol
