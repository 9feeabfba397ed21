import LintPatrol.Lint.Run
import LintPatrol.Role.Scheduler

/-!
# LintPatrol.Proofs.Role.Alone

A role that has the stored data to itself: nobody writes to them while a
revision is fetched, a container runs or what stopped containers hold is freed
(`Services.Alone`).  Then all that is stored changes by the calls of the role
only; checkouts come and go in the files, and running a linter (`data_lint`) or
looking for the head of a repository (`data_head`) leaves stored data alone.
-/

namespace LintPatrol

namespace World

variable {δ ε : Type}

@[simp] theorem data_closeCheckout (dir : String) (w : World δ ε) :
    (w.closeCheckout dir).data = w.data := by
  unfold closeCheckout
  split <;> rfl

@[simp] theorem named_closeCheckout (dir : String) (w : World δ ε) :
    (w.closeCheckout dir).named = w.named := by
  unfold closeCheckout
  split <;> rfl

/-- A checkout takes a name, and leaves stored data alone. -/
theorem openCheckout_ok {name : Nat → String} {scratch dir : String} {w w' : World δ ε}
    (h : w.openCheckout name scratch = .ok (dir, w')) :
    w'.data = w.data ∧ w'.named = w.named + 1 := by
  unfold openCheckout at h
  split at h
  · cases h
  · simp only at h
    split at h
    · cases h
    · cases h
      exact ⟨rfl, rfl⟩

end World

namespace Services

variable {δ ε : Type} {sv : Services δ ε}

/-- Nobody but the role itself writes to stored data. -/
structure Alone (sv : Services δ ε) : Prop where
  fetch : ∀ s url ref dir w, (sv.fetch s url ref dir w).2.data = w.data
  exec : ∀ s image mount dir w, (sv.exec s image mount dir w).2.data = w.data
  cleanup : ∀ s w, (sv.cleanup s w).2.data = w.data

/-- While a linter runs, nothing that is stored changes. -/
theorem data_lintIn (h : sv.Alone) (mount : String) (s : Scope) (repo : RepoRevision)
    (linter : LinterImage) (dir : String) (w : World δ ε) :
    (sv.lintIn mount s repo linter dir w).2.data = w.data := by
  unfold lintIn
  split
  · next e w' hfetched =>
    rw [← h.fetch s repo.url (.commit repo.commit) dir w, hfetched]
  · next commit w' hfetched =>
    have hfetch : w'.data = w.data := by
      rw [← h.fetch s repo.url (.commit repo.commit) dir w, hfetched]
    split
    · next e w'' hran => rw [← hfetch, ← h.exec s linter.reference mount dir w', hran]
    · next lines w'' hran => rw [← hfetch, ← h.exec s linter.reference mount dir w', hran]

/-- Running a linter leaves stored data alone. -/
theorem data_lint (h : sv.Alone) (scratch mount : String) (s : Scope) (repo : RepoRevision)
    (linter : LinterImage) (w : World δ ε) :
    (sv.lint scratch mount s repo linter w).2.data = w.data := by
  unfold lint
  split
  · rfl
  · next dir w' hopen =>
    rw [World.data_closeCheckout, data_lintIn h, (World.openCheckout_ok hopen).1]

/-- Looking for the head of a repository leaves stored data alone. -/
theorem data_head (h : sv.Alone) (scratch : String) (s : Scope) (repo : Repo) (w : World δ ε) :
    (sv.head scratch s repo w).2.data = w.data := by
  unfold head
  split
  · rfl
  · next dir w' hopen =>
    rw [World.data_closeCheckout, h.fetch, (World.openCheckout_ok hopen).1]

end Services

end LintPatrol
