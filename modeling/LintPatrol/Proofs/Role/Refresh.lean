import LintPatrol.Proofs.Store.Registry
import LintPatrol.Role.World
import LintPatrol.Role.Scheduler

/-!
# LintPatrol.Proofs.Role.Refresh

A repository is refreshed in three steps: it is read, the head of its branch is
fetched, and it is written back as it was read, with the commit found.  People
may add, move or remove the repository while the fetch is going on, and the
writing does not look at what they did.

So the register ends up with the address and the branch that were *read*
(`refreshed_ok`).  What was registered in between is kept if and only if it says
the same (`refresh_keeps_iff`); a repository that was moved is moved back, and
one that was removed is there again.
-/

namespace LintPatrol

open Time

/-! ## Registering a repository -/

/-- What people do to one repository. -/
inductive RepoEdit where
  | add (url branch : String)
  | remove
deriving Repr, DecidableEq

namespace RepoEdit

/-- The call that an edit is. -/
def call (id : String) : RepoEdit → StoreCall
  | add url branch => .putRepo (.unresolved ⟨id, url, branch⟩)
  | remove => .deleteRepo id

/-- What an edit says: where the repository is, if it is to be stored at all. -/
def source? (id : String) : RepoEdit → Option RepoSource
  | add url branch => some ⟨id, url, branch⟩
  | remove => none

/-- What the last of some edits says; if there is none, things stay as they
were. -/
def meant (source : RepoSource) (edits : List RepoEdit) : Option RepoSource :=
  edits.foldl (fun _ e => e.source? source.id) (some source)

end RepoEdit

namespace Store

/-- Where the repository of that name is. -/
def repoSource? (s : Store) (id : String) : Option RepoSource := (s.getRepo id).map Repo.source

/-- After an edit a repository is watched where the edit says. -/
theorem repoSource?_edit (s : Store) (id : String) (e : RepoEdit) :
    ((e.call id).perform s).2.repoSource? id = e.source? id := by
  cases e with
  | add url branch =>
    change ((s.putRepo (.unresolved ⟨id, url, branch⟩)).getRepo id).map Repo.source = _
    rw [getRepo_putRepo, if_pos (show id = (Repo.unresolved ⟨id, url, branch⟩).source.id from rfl)]
    exact congrArg some (RepoRow.source_read _)
  | remove =>
    change ((s.deleteRepo id).2.getRepo id).map Repo.source = _
    rw [getRepo_deleteRepo, if_pos rfl]
    rfl

/-- The register says what the last edit said. -/
theorem repoSource?_after {source : RepoSource} {s : Store} (edits : List RepoEdit)
    (hread : s.repoSource? source.id = some source) :
    (s.after (edits.map (·.call source.id))).repoSource? source.id =
      RepoEdit.meant source edits := by
  have hfold : ∀ (s : Store) (before : Option RepoSource), s.repoSource? source.id = before →
      (s.after (edits.map (·.call source.id))).repoSource? source.id =
        edits.foldl (fun _ e => e.source? source.id) before := by
    induction edits with
    | nil => exact fun _ _ h => h
    | cons e edits ih => exact fun s _ _ => ih _ _ (repoSource?_edit s source.id e)
  exact hfold s _ hread

end Store

/-! ## Refreshing -/

namespace Services

variable {ε : Type} {sv : Services Store ε} {scratch : String} {s : Scope} {repo repo' : Repo}
  {w w' : World Store ε}

/-- A refresh that has found a commit, with time left, writes the repository
that it was given into whatever store it meets then. -/
theorem refreshed_eq (hkeeper : sv.keeper.putRepo = Store.keeper.putRepo) (scratch : String)
    (s : Scope) (repo : Repo) (w : World Store ε) :
    sv.refreshed scratch s repo w =
      match sv.head scratch s repo w with
      | (.error f, met) => (.error f, met)
      | (.ok commit, met) =>
        if met.time.isExpired s then (.error (.plain Scope.expiredMessage), met)
        else (.ok (repo.resolve commit),
          { met with data := met.data.putRepo (repo.resolve commit) }) := by
  unfold refreshed
  obtain ⟨found, met⟩ := sv.head scratch s repo w
  cases found with
  | error f => rfl
  | ok commit =>
    simp only [hkeeper, Store.keeper, World.call]
    by_cases hexpired : met.time.isExpired s = true
    · simp only [hexpired, if_true]
    · simp only [hexpired, Bool.false_eq_true, if_false]

/-- What a refresh that succeeds has found and left. -/
theorem refreshed_ok (hkeeper : sv.keeper.putRepo = Store.keeper.putRepo)
    (h : (sv.refreshed scratch s repo w).1 = .ok repo') :
    ∃ commit, (sv.head scratch s repo w).1 = .ok commit ∧ repo' = repo.resolve commit ∧
      (sv.refreshed scratch s repo w).2.data =
        (sv.head scratch s repo w).2.data.putRepo (repo.resolve commit) := by
  rw [refreshed_eq hkeeper] at h ⊢
  generalize sv.head scratch s repo w = answer at h ⊢
  obtain ⟨found, met⟩ := answer
  cases found with
  | error f => cases h
  | ok commit =>
    by_cases hexpired : met.time.isExpired s = true
    · simp only [hexpired, if_true] at h
      cases h
    · simp only [hexpired, Bool.false_eq_true, if_false, Except.ok.injEq] at h ⊢
      exact ⟨commit, rfl, h.symm, rfl⟩

/-- **A refresh keeps what was registered meanwhile if and only if that agrees
with what it read.**  The repository was read from a store, and people have
edited it until the fetch was over, so that the register said what the last edit
said.  Then the repository is stored as it was read, with the commit found;
other repositories are left alone. -/
theorem refresh_keeps_iff (hkeeper : sv.keeper = Store.keeper) {read : Store}
    (hunique : read.repoIds.Nodup) (hread : repo ∈ read.listRepos) (edits : List RepoEdit)
    (hmet : (sv.head scratch s repo w).2.data =
      read.after (edits.map (·.call repo.source.id)))
    (h : (sv.refreshed scratch s repo w).1 = .ok repo') :
    let left := (sv.refreshed scratch s repo w).2.data
    let met := (sv.head scratch s repo w).2.data
    let meant := RepoEdit.meant repo.source edits
    met.repoSource? repo.source.id = meant ∧
      (∃ commit, (sv.head scratch s repo w).1 = .ok commit ∧ repo' = repo.resolve commit) ∧
      (∀ id, left.getRepo id = if id = repo.source.id then some repo' else met.getRepo id) ∧
      (left.repoSource? repo.source.id = meant ↔ meant = some repo.source) := by
  intro left met meant
  obtain ⟨commit, hfound, rfl, hleft⟩ := refreshed_ok (congrArg Keeper.putRepo hkeeper) h
  have hget : ∀ id, left.getRepo id =
      if id = repo.source.id then some (repo.resolve commit) else met.getRepo id := fun id =>
    (congrArg (Store.getRepo · id) hleft).trans (met.getRepo_putRepo_resolve repo commit id)
  refine ⟨?_, ⟨commit, hfound, rfl⟩, hget, ?_⟩
  · have hsource : read.repoSource? repo.source.id = some repo.source :=
      congrArg (Option.map Repo.source) (Store.getRepo_of_mem hunique hread)
    exact (congrArg (Store.repoSource? · repo.source.id) hmet).trans
      (Store.repoSource?_after edits hsource)
  · rw [Store.repoSource?, hget, if_pos rfl]
    exact eq_comm

/-! ## An edit that is lost -/

/-- A repository that is watched. -/
def watched : Repo := .unresolved ⟨"r", "https://here", "main"⟩

/-- Services on a host where people edit the repository during every fetch. -/
def meddled (edits : List RepoEdit) : Services Store Unit :=
  { Services.isolated Store.keeper "socket" .epoch with
    fetch := fun _ _ _ _ w =>
      (.ok "c0ffee", { w with data := w.data.after (edits.map (·.call "r")) }) }

/-- A store with that repository. -/
def watching : Store := Store.empty.putRepo watched

/-- The world in which its refresh begins. -/
def beginning : World Store Unit := ⟨.start, .empty, watching, 0, ()⟩

/-- A repository that is removed while it is fetched is stored again. -/
theorem refresh_revives_removed :
    let met := ((meddled [.remove]).head "/scratch" ⟨[0], none⟩ watched beginning).2.data
    let left := ((meddled [.remove]).refreshed "/scratch" ⟨[0], none⟩ watched beginning).2.data
    watched ∈ beginning.data.listRepos ∧ met = beginning.data.after [RepoEdit.remove.call "r"] ∧
      RepoEdit.meant watched.source [.remove] = none ∧ met.getRepo "r" = none ∧
      left.getRepo "r" = some (watched.resolve "c0ffee") := by
  decide +kernel

/-- A repository that is moved while it is fetched is moved back. -/
theorem refresh_keeps_iff_moved :
    let sv := meddled [.add "https://there" "dev"]
    let left := (sv.refreshed "/scratch" ⟨[0], none⟩ watched beginning).2.data
    left.repoSource? "r" ≠ some ⟨"r", "https://there", "dev"⟩ := by
  intro sv left hkept
  have hread : watched ∈ watching.listRepos := by decide +kernel
  have hmet : (sv.head "/scratch" ⟨[0], none⟩ watched beginning).2.data =
      watching.after [RepoEdit.call "r" (.add "https://there" "dev")] := by decide +kernel
  have hdone : (sv.refreshed "/scratch" ⟨[0], none⟩ watched beginning).1 =
      .ok (watched.resolve "c0ffee") := by decide +kernel
  have hkeeper : sv.keeper = Store.keeper := rfl
  obtain ⟨-, -, -, hkeeps⟩ := refresh_keeps_iff hkeeper (by decide) hread
    [.add "https://there" "dev"] hmet hdone
  exact absurd (hkeeps.mp hkept) (by decide)

end Services

end LintPatrol
