import LintPatrol.Proofs.Role.Timely
import LintPatrol.Proofs.Store.Enqueue

/-!
# LintPatrol.Proofs.Role.Asking

What a scheduler that asks for many tasks leaves.  `Asked` relates the world
before to the one after: the tasks there were are all there, in their order, and
behind them stands one new task for each fingerprint that was asked for and not
known.  To ask for one list of tasks and then for another one is to ask for
both (`Asked.trans`), so that a whole pass follows from a single request
(`Services.asked_schedule`).

Names are handed out by number.  That they are fresh is said of the range of
numbers that a run uses up (`NamesFresh`); a request uses up one.
-/

namespace LintPatrol

open Time

/-! ## Names -/

/-- The names of a range of numbers: no two are the same, and no stored task has
one of them. -/
structure NamesFresh (name : Nat → String) (s : Store) (first last : Nat) : Prop where
  distinct : ∀ j < last, ∀ i < j, first ≤ i → name i ≠ name j
  unused : ∀ i < last, first ≤ i → ∀ u ∈ s.tasks, u.id ≠ name i

namespace World

variable {δ ε α β : Type}

/-- The rest of a chain takes back no names. -/
def KeepsNames (rest : Rest δ ε α) : Prop := ∀ s a w, w.named ≤ (rest s a w).2.named

theorem keepsNames_done : KeepsNames (done : Rest δ ε α) := fun _ _ _ => Nat.le_refl _

/-- If each item leaves names alone, all of them do. -/
theorem KeepsNames.through {rest : Rest δ ε α} (h : KeepsNames rest) (s : Scope) (items : List α)
    (w : World δ ε) : w.named ≤ (through rest s items w).2.named := by
  induction items generalizing w with
  | nil => exact Nat.le_refl _
  | cons a items ih => exact Nat.le_trans (h s a w) (ih _)

/-- A stage that takes back no names may stand before a chain that does not. -/
theorem KeepsNames.step {name : String} {timeout : Duration}
    {body : Scope → α → World δ ε → Ending β × World δ ε} {rest : Rest δ ε β}
    (hbody : ∀ s a w, w.named ≤ (body s a w).2.named) (hrest : KeepsNames rest) :
    KeepsNames (step name timeout body rest) := by
  intro s a w
  have hnamed := hbody (w.stageScope s timeout) a (w.atStage s timeout)
  simp only [World.step]
  simp only [stageScope, atStage] at hnamed
  split
  · next hended => rwa [hended] at hnamed
  · next hended => rwa [hended] at hnamed
  · next items w' hended =>
    rw [hended] at hnamed
    exact Nat.le_trans hnamed (hrest.through s items w')

end World

/-! ## Asking -/

section

variable {ε : Type}

/-- Tasks were asked for, and `new` are the rows of those that were added. -/
structure Asked (sv : Services Store ε) (pairs : List (RepoRevision × LinterImage))
    (w w' : World Store ε) (new : List TaskRow) : Prop where
  tasks_eq : w'.data.tasks = w.data.tasks ++ new
  nodup : (new.map TaskRow.fingerprint).Nodup
  mem_iff : ∀ f, f ∈ new.map TaskRow.fingerprint ↔
    ¬w.data.Knows f ∧ ∃ p ∈ pairs, Fingerprint.ofPair p.1 p.2 = f
  rows : ∀ u ∈ new, ∃ p ∈ pairs, ∃ i now, w.named ≤ i ∧ i < w'.named ∧
    u = TaskRow.fresh (Task.fresh (sv.taskName i) p.2 p.1 now) now
  named_le : w.named ≤ w'.named

namespace Asked

variable {sv : Services Store ε} {pairs qairs : List (RepoRevision × LinterImage)}
  {w w' w'' : World Store ε} {new later : List TaskRow}

/-- What leaves tasks alone has asked for none. -/
theorem nil (htasks : w'.data.tasks = w.data.tasks) (hnamed : w.named ≤ w'.named) :
    Asked sv [] w w' [] where
  tasks_eq := by rw [htasks, List.append_nil]
  nodup := List.nodup_nil
  mem_iff f := by simp
  rows u hu := by cases hu
  named_le := hnamed

/-- What was asked for is known, and nothing else that was not. -/
theorem knows_iff (h : Asked sv pairs w w' new) {f : Fingerprint} :
    w'.data.Knows f ↔ w.data.Knows f ∨ ∃ p ∈ pairs, Fingerprint.ofPair p.1 p.2 = f := by
  rw [Store.knows_iff_mem, h.tasks_eq, List.map_append, List.mem_append, ← Store.knows_iff_mem,
    h.mem_iff]
  by_cases hknown : w.data.Knows f <;> simp [hknown]

/-- Asking twice is asking for all that was asked for. -/
theorem trans (h : Asked sv pairs w w' new) (h' : Asked sv qairs w' w'' later) :
    Asked sv (pairs ++ qairs) w w'' (new ++ later) where
  tasks_eq := by rw [h'.tasks_eq, h.tasks_eq, List.append_assoc]
  nodup := by
    rw [List.map_append]
    refine List.nodup_append.mpr ⟨h.nodup, h'.nodup, ?_⟩
    rintro f hf _ hf' rfl
    -- What was added first is known when more is asked for.
    exact ((h'.mem_iff f).mp hf').1 (h.knows_iff.mpr (.inr ((h.mem_iff f).mp hf).2))
  mem_iff f := by
    rw [List.map_append, List.mem_append, h.mem_iff, h'.mem_iff, h.knows_iff]
    simp only [List.mem_append, or_and_right, exists_or]
    by_cases hknown : w.data.Knows f
    · simp [hknown]
    · by_cases hasked : ∃ p ∈ pairs, Fingerprint.ofPair p.1 p.2 = f <;> simp [hknown, hasked]
  rows u hu := by
    rcases List.mem_append.mp hu with hu | hu
    · obtain ⟨p, hp, i, now, hle, hlt, hrow⟩ := h.rows u hu
      exact ⟨p, List.mem_append_left _ hp, i, now, hle, Nat.lt_of_lt_of_le hlt h'.named_le, hrow⟩
    · obtain ⟨p, hp, i, now, hle, hlt, hrow⟩ := h'.rows u hu
      exact ⟨p, List.mem_append_right _ hp, i, now, Nat.le_trans h.named_le hle, hlt, hrow⟩
  named_le := Nat.le_trans h.named_le h'.named_le

/-- Names that are still to be handed out stay fresh. -/
theorem namesFresh (h : Asked sv pairs w w' new) {last : Nat}
    (hfresh : NamesFresh sv.taskName w.data w.named last) :
    NamesFresh sv.taskName w'.data w'.named last where
  distinct j hj i hi hle := hfresh.distinct j hj i hi (Nat.le_trans h.named_le hle)
  unused i hi hle u hu := by
    rw [h.tasks_eq] at hu
    rcases List.mem_append.mp hu with hu | hu
    · exact hfresh.unused i hi (Nat.le_trans h.named_le hle) u hu
    · obtain ⟨p, -, j, now, hj, hlt, rfl⟩ := h.rows u hu
      exact hfresh.distinct i hi j (Nat.lt_of_lt_of_le hlt hle) hj

end Asked

/-! ## Requests -/

namespace Services

variable {sv : Services Store ε} {s : Scope} {w : World Store ε}

/-- A request uses up one name. -/
theorem named_schedule (sv : Services Store ε) (repo : RepoRevision) (linter : LinterImage)
    (w : World Store ε) : (sv.schedule repo linter w).2.named = w.named + 1 := by
  simp only [schedule]
  split <;> rfl

theorem time_schedule (sv : Services Store ε) (repo : RepoRevision) (linter : LinterImage)
    (w : World Store ε) : (sv.schedule repo linter w).2.time = w.time := by
  simp only [schedule]
  split <;> rfl

/-- One request, under a fresh name. -/
theorem asked_schedule (hkeeper : sv.keeper.tryAdd = Store.keeper.tryAdd) (repo : RepoRevision)
    (linter : LinterImage) (hname : ∀ u ∈ w.data.tasks, u.id ≠ sv.taskName w.named) :
    ∃ new, Asked sv [(repo, linter)] w (sv.schedule repo linter w).2 new := by
  have hnamed := sv.named_schedule repo linter w
  have hdata : (sv.schedule repo linter w).2.data =
      (w.data.tryAdd (sv.wanted repo linter w) (sv.clock w.time)).2 := by rw [schedule_eq hkeeper]
  have hprint : (sv.wanted repo linter w).fingerprint = .ofPair repo linter := rfl
  rcases w.data.tryAdd_cases (sv.wanted repo linter w) (sv.clock w.time) with
    ⟨hknown, heq⟩ | ⟨-, hused, -⟩ | ⟨hnew, -, heq⟩
  · rw [heq] at hdata
    refine ⟨[], by rw [hdata, List.append_nil], List.nodup_nil, fun f => ?_,
      fun u hu => absurd hu List.not_mem_nil, by omega⟩
    simp only [List.map_nil, List.not_mem_nil, List.mem_singleton, exists_eq_left, false_iff,
      not_and]
    rintro hunknown rfl
    exact hunknown (hprint ▸ hknown)
  · exact absurd hname hused
  · rw [heq] at hdata
    refine ⟨[TaskRow.fresh (sv.wanted repo linter w) (sv.clock w.time)], by rw [hdata],
      List.nodup_singleton _, fun f => ?_, fun u hu => ?_, by omega⟩
    · have hrow : (TaskRow.fresh (sv.wanted repo linter w) (sv.clock w.time)).fingerprint =
          .ofPair repo linter := rfl
      simp only [List.map_cons, List.map_nil, hrow, List.mem_singleton, exists_eq_left]
      constructor
      · rintro rfl
        exact ⟨hnew, rfl⟩
      · rintro ⟨-, rfl⟩
        rfl
    · exact ⟨_, List.mem_singleton_self _, w.named, sv.clock w.time, Nat.le_refl _, by omega,
        List.mem_singleton.mp hu⟩

/-- A request changes nothing but the tasks. -/
theorem schedule_frame (hkeeper : sv.keeper.tryAdd = Store.keeper.tryAdd) (repo : RepoRevision)
    (linter : LinterImage) (w : World Store ε) :
    ∃ tasks, (sv.schedule repo linter w).2.data = { w.data with tasks := tasks } := by
  rw [schedule_eq hkeeper]
  rcases w.data.tryAdd_cases (sv.wanted repo linter w) (sv.clock w.time) with
    ⟨-, heq⟩ | ⟨-, -, heq⟩ | ⟨-, -, heq⟩ <;>
  exact ⟨_, by rw [heq]⟩

/-! ## Many requests -/

variable {repo : RepoRevision}

theorem time_scheduleAll (sv : Services Store ε) (s : Scope) (repo : RepoRevision)
    (images : List LinterImage) (w : World Store ε) :
    (sv.scheduleAll s repo images w).2.time = w.time := by
  induction images generalizing w with
  | nil => rfl
  | cons image images ih =>
    rw [scheduleAll]
    split
    · rfl
    · rw [ih, time_schedule]

/-- No request gives a name back. -/
theorem named_le_scheduleAll (sv : Services Store ε) (s : Scope) (repo : RepoRevision)
    (images : List LinterImage) (w : World Store ε) :
    w.named ≤ (sv.scheduleAll s repo images w).2.named := by
  induction images generalizing w with
  | nil => exact Nat.le_refl _
  | cons image images ih =>
    rw [scheduleAll]
    split
    · exact Nat.le_refl _
    · have hnext := ih (sv.schedule repo image w).2
      rw [named_schedule] at hnext
      omega

/-- Requests that are made in time are all made. -/
theorem scheduleAll_lasts (sv : Services Store ε) (repo : RepoRevision) (images : List LinterImage)
    (hlive : w.time.isExpired s = false) : (sv.scheduleAll s repo images w).1 = true := by
  induction images generalizing w with
  | nil => rfl
  | cons image images ih =>
    rw [scheduleAll, if_neg (by simp [hlive])]
    exact ih (by rw [time_schedule, hlive])

/-- Requests that are made in time, under fresh names. -/
theorem asked_scheduleAll (hkeeper : sv.keeper.tryAdd = Store.keeper.tryAdd)
    (repo : RepoRevision) (images : List LinterImage) (hlive : w.time.isExpired s = false)
    {last : Nat} (hfresh : NamesFresh sv.taskName w.data w.named last)
    (hlast : (sv.scheduleAll s repo images w).2.named ≤ last) :
    ∃ new, Asked sv (images.map (repo, ·)) w (sv.scheduleAll s repo images w).2 new := by
  induction images generalizing w with
  | nil => exact ⟨[], .nil rfl (Nat.le_refl _)⟩
  | cons image images ih =>
    rw [scheduleAll, if_neg (by simp [hlive])] at hlast ⊢
    have hnamed := sv.named_schedule repo image w
    have hle := sv.named_le_scheduleAll s repo images (sv.schedule repo image w).2
    obtain ⟨new, hone⟩ := asked_schedule hkeeper repo image
      (hfresh.unused w.named (by omega) (Nat.le_refl _))
    have hlive' : (sv.schedule repo image w).2.time.isExpired s = false := by
      rw [time_schedule, hlive]
    obtain ⟨later, hmany⟩ := ih hlive' (hone.namesFresh hfresh) hlast
    exact ⟨_, hone.trans hmany⟩

/-- Requests change nothing but the tasks. -/
theorem scheduleAll_frame (hkeeper : sv.keeper.tryAdd = Store.keeper.tryAdd) (s : Scope)
    (repo : RepoRevision) (images : List LinterImage) (w : World Store ε) :
    ∃ tasks, (sv.scheduleAll s repo images w).2.data = { w.data with tasks := tasks } := by
  induction images generalizing w with
  | nil => exact ⟨_, rfl⟩
  | cons image images ih =>
    rw [scheduleAll]
    split
    · exact ⟨_, rfl⟩
    · obtain ⟨tasks, hone⟩ := schedule_frame hkeeper repo image w
      obtain ⟨later, hmany⟩ := ih (sv.schedule repo image w).2
      exact ⟨later, by rw [hmany, hone]⟩

end Services

end

end LintPatrol
