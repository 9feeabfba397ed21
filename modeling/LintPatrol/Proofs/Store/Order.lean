import LintPatrol.Proofs.Store.History

/-!
# LintPatrol.Proofs.Store.Order

Which task is taken next.  Tasks are in the order of the times they were created
at, and those created at one time in that of their names (`TaskRow.Precedes`).
The task that is taken is pending, under no lease that lies beyond the horizon,
and precedes all others of which that is true (`Store.next?_first`); there is
none only if no task can be taken (`Store.next?_eq_none_iff`).
-/

namespace LintPatrol

namespace TaskRow

/-! ## The order of tasks -/

/-- The task was created before the other one, or at the same time and does not
come behind it by its name. -/
def Precedes (t u : TaskRow) : Prop :=
  t.createdAt < u.createdAt ∨ (t.createdAt = u.createdAt ∧ t.id ≤ u.id)

theorem Precedes.refl (t : TaskRow) : t.Precedes t := .inr ⟨rfl, String.le_refl t.id⟩

theorem Precedes.trans {t u v : TaskRow} (h : t.Precedes u) (h' : u.Precedes v) : t.Precedes v := by
  rcases h with h | ⟨h, hid⟩ <;> rcases h' with h' | ⟨h', hid'⟩
  · exact .inl (Int.lt_trans h h')
  · exact .inl (h' ▸ h)
  · exact .inl (h ▸ h')
  · exact .inr ⟨h.trans h', String.le_trans hid hid'⟩

/-- A task precedes all that were not created before it. -/
theorem isBefore_eq_false_iff {t u : TaskRow} : u.isBefore t = false ↔ t.Precedes u := by
  simp only [isBefore, Precedes, Bool.or_eq_false_iff, Bool.and_eq_false_imp,
    decide_eq_false_iff_not, decide_eq_true_eq, String.not_lt]
  constructor
  · rintro ⟨htime, hid⟩
    rcases Int.lt_or_eq_of_le (Int.not_lt.mp htime) with hlt | heq
    · exact .inl hlt
    · exact .inr ⟨heq, hid heq.symm⟩
  · rintro (hlt | ⟨heq, hid⟩)
    · exact ⟨by omega, fun heq => by omega⟩
    · exact ⟨by omega, fun _ => hid⟩

/-- A task that was created before another one precedes it. -/
theorem precedes_of_isBefore {t u : TaskRow} (h : u.isBefore t = true) : u.Precedes t := by
  simp only [isBefore, Bool.or_eq_true, Bool.and_eq_true, decide_eq_true_eq] at h
  rcases h with h | ⟨heq, hid⟩
  · exact .inl h
  · exact .inr ⟨heq, String.not_lt.mp fun hlt => String.lt_irrefl _ (String.lt_trans hid hlt)⟩

/-! ## Tasks that can be taken -/

/-- The task is pending, and no lease of it lies beyond the horizon. -/
structure Claimable (horizon : Int) (t : TaskRow) : Prop where
  pending : t.status = .pending
  unlocked : ∀ l ∈ t.lockedAt, l ≤ horizon

/-- What is checked is that the task can be taken. -/
theorem isClaimable_iff {horizon : Int} {t : TaskRow} :
    t.isClaimable horizon = true ↔ t.Claimable horizon := by
  rw [isClaimable, Bool.and_eq_true, decide_eq_true_eq]
  constructor
  · rintro ⟨hpending, hlock⟩
    refine ⟨hpending, fun l hl => ?_⟩
    rw [Option.mem_def.mp hl] at hlock
    exact of_decide_eq_true hlock
  · rintro ⟨hpending, hlock⟩
    refine ⟨hpending, ?_⟩
    cases hl : t.lockedAt with
    | none => rfl
    | some l => exact decide_eq_true (hlock l hl)

end TaskRow

/-! ## The oldest task -/

theorem oldest?_eq_none_iff {ts : List TaskRow} : oldest? ts = none ↔ ts = [] := by
  cases ts with
  | nil => exact ⟨fun _ => rfl, fun _ => rfl⟩
  | cons t ts =>
    refine ⟨fun h => ?_, fun h => by cases h⟩
    rw [oldest?] at h
    cases ho : oldest? ts with
    | none => simp [ho] at h
    | some u => cases hbefore : u.isBefore t <;> simp [ho, hbefore] at h

/-- The oldest of some tasks precedes them all. -/
theorem oldest?_precedes {ts : List TaskRow} {t : TaskRow} (h : oldest? ts = some t) {u : TaskRow}
    (hu : u ∈ ts) : t.Precedes u := by
  induction ts generalizing t u with
  | nil => contradiction
  | cons v vs ih =>
    rw [oldest?] at h
    cases ho : oldest? vs with
    | none =>
      rw [ho] at h
      cases h
      rw [oldest?_eq_none_iff.mp ho] at hu
      rw [List.mem_singleton.mp hu]
      exact .refl v
    | some w =>
      -- Either the oldest of the others stays the oldest, or the first one precedes
      -- it and thus all of them.
      simp only [ho] at h
      cases hbefore : w.isBefore v with
      | true =>
        simp only [hbefore, if_true, Option.some.injEq] at h
        subst h
        rcases List.mem_cons.mp hu with rfl | hu
        · exact TaskRow.precedes_of_isBefore hbefore
        · exact ih ho hu
      | false =>
        simp only [hbefore, Bool.false_eq_true, if_false, Option.some.injEq] at h
        subst h
        rcases List.mem_cons.mp hu with rfl | hu
        · exact .refl u
        · exact (TaskRow.isBefore_eq_false_iff.mp hbefore).trans (ih ho hu)

namespace Store

variable {s : Store} {horizon : Int}

/-- No task is taken only if none can be. -/
theorem next?_eq_none_iff : s.next? horizon = none ↔ ∀ t ∈ s.tasks, ¬t.Claimable horizon := by
  rw [next?, oldest?_eq_none_iff, List.filter_eq_nil_iff]
  simp only [TaskRow.isClaimable_iff]

/-- The task that is taken can be, and precedes all others that can be. -/
theorem next?_first {t : TaskRow} (h : s.next? horizon = some t) :
    t ∈ s.tasks ∧ t.Claimable horizon ∧
      ∀ u ∈ s.tasks, u.Claimable horizon → t.Precedes u := by
  obtain ⟨ht, hclaim⟩ := mem_of_next? h
  refine ⟨ht, TaskRow.isClaimable_iff.mp hclaim, fun u hu hclaimable => ?_⟩
  exact oldest?_precedes h (List.mem_filter.mpr ⟨hu, TaskRow.isClaimable_iff.mpr hclaimable⟩)

end Store

end LintPatrol
