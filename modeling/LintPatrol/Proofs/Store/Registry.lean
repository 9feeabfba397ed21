import LintPatrol.Proofs.Store.History
import LintPatrol.Proofs.Store.Table

/-!
# LintPatrol.Proofs.Store.Registry

The register of repositories as it is looked up.  From what is known of tables
follows what each operation does to the repository of a name:

* `getRepo_putRepo`, and `getRepo_putRepo_resolve` for one with its commit;
* `getRepo_deleteRepo`.

There is one row of each name in every store that calls lead to
(`repoIds_after`), so that the repositories that are listed are those that are
looked up (`getRepo_of_mem`).
-/

namespace LintPatrol

namespace RepoRow

@[simp] theorem id_source (row : RepoRow) : row.source.id = row.id := rfl

@[simp] theorem id_update (repo : Repo) (old : Option RepoRow) :
    (update repo old).id = repo.source.id := rfl

@[simp] theorem source_read (row : RepoRow) : row.read.source = row.source := by
  unfold read
  split <;> rfl

/-- A row is known by the repository that it stands for. -/
theorem read_inj {row row' : RepoRow} (h : row.read = row'.read) : row = row' := by
  obtain ⟨id, url, branch, commit⟩ := row
  obtain ⟨id', url', branch', commit'⟩ := row'
  cases commit <;> cases commit' <;> simp_all [read, source, Repo.resolve, Repo.source]

/-- A repository that comes with its commit is read back as it is, whatever row
it had. -/
@[simp] theorem read_update_resolve (repo : Repo) (commit : String) (old : Option RepoRow) :
    (update (repo.resolve commit) old).read = repo.resolve commit := rfl

end RepoRow

namespace Store

variable {s : Store} {id : String}

/-! ## Looking up a repository -/

/-- What is stored under a name is found under it, with the commit it had if it
comes without one and has not moved; other repositories are found as before. -/
theorem getRepo_putRepo (s : Store) (repo : Repo) (id : String) :
    (s.putRepo repo).getRepo id =
      if id = repo.source.id then
        some (RepoRow.update repo (s.repos.find? (·.id = repo.source.id))).read
      else s.getRepo id := by
  rw [getRepo, putRepo, find?_putRow_key RepoRow.id fun o _ => RepoRow.id_update repo o]
  split
  · next hid => rw [hid]; rfl
  · rfl

/-- What is stored with its commit is found as it is. -/
theorem getRepo_putRepo_resolve (s : Store) (repo : Repo) (commit id : String) :
    (s.putRepo (repo.resolve commit)).getRepo id =
      if id = repo.source.id then some (repo.resolve commit) else s.getRepo id := by
  rw [getRepo_putRepo, RepoRow.read_update_resolve, Repo.source_resolve]

/-- What was removed is not found; other repositories are found as before. -/
theorem getRepo_deleteRepo (s : Store) (removed id : String) :
    (s.deleteRepo removed).2.getRepo id = if id = removed then none else s.getRepo id := by
  rw [getRepo, deleteRepo, find?_filter_key RepoRow.id]
  split <;> rfl

/-- The same linters are listed in the same way. -/
theorem listLinters_congr {s' : Store} (h : s'.linters = s.linters) :
    s'.listLinters = s.listLinters := by
  simp only [listLinters, linterRows, h]

/-! ## Names -/

def repoIds (s : Store) : List String := s.repos.map RepoRow.id

/-- A repository that is stored already keeps its place. -/
theorem repoIds_putRepo {repo : Repo} (h : repo.source.id ∈ s.repoIds) :
    (s.putRepo repo).repoIds = s.repoIds := by
  obtain ⟨row, hrow, hid⟩ := List.mem_map.mp h
  exact map_putRow RepoRow.id (fun r hr => (of_decide_eq_true hr).symm)
    ⟨row, hrow, decide_eq_true hid⟩

/-- The queue and the verdicts leave the register alone. -/
theorem registry_perform {c : StoreCall} (hc : c.isRegistry = false) (s : Store) :
    (c.perform s).2.repos = s.repos ∧ (c.perform s).2.linters = s.linters := by
  cases c with
  | tryAdd t now =>
    simp only [StoreCall.perform, tryAdd]
    split
    · exact ⟨rfl, rfl⟩
    · split <;> exact ⟨rfl, rfl⟩
  | tryTake horizon now =>
    simp only [StoreCall.perform, tryTake]
    split <;> exact ⟨rfl, rfl⟩
  | set held r completedAt =>
    simp only [StoreCall.perform, set]
    split
    · exact ⟨rfl, rfl⟩
    · split
      · exact ⟨rfl, rfl⟩
      · split <;> exact ⟨rfl, rfl⟩
  | moderate => exact ⟨rfl, rfl⟩
  | putRepo | deleteRepo | putLinter | deleteLinter => contradiction

/-- Calls that are none on the register leave it alone. -/
theorem registry_after {cs : List StoreCall} (hcs : ∀ c ∈ cs, c.isRegistry = false) (s : Store) :
    (s.after cs).repos = s.repos ∧ (s.after cs).linters = s.linters := by
  induction cs generalizing s with
  | nil => exact ⟨rfl, rfl⟩
  | cons c cs ih =>
    obtain ⟨hrepos, hlinters⟩ := registry_perform (hcs c List.mem_cons_self) s
    obtain ⟨hrepos', hlinters'⟩ :=
      ih (fun d hd => hcs d (List.mem_cons_of_mem _ hd)) (c.perform s).2
    exact ⟨hrepos'.trans hrepos, hlinters'.trans hlinters⟩

/-- Names stay unique, whatever is called. -/
theorem repoIds_perform (h : s.repoIds.Nodup) (c : StoreCall) : (c.perform s).2.repoIds.Nodup := by
  cases hc : c.isRegistry with
  | false =>
    rw [repoIds, (registry_perform hc s).1]
    exact h
  | true =>
    cases c with
    | putRepo repo => exact nodup_putRow RepoRow.id (fun o _ => RepoRow.id_update repo o) h
    | deleteRepo id => exact h.sublist (List.filter_sublist.map RepoRow.id)
    | putLinter | deleteLinter => exact h
    | tryAdd | tryTake | set | moderate => contradiction

/-- In every store that calls lead to, the names of repositories are unique. -/
theorem repoIds_after (hs : s.repoIds.Nodup) (cs : List StoreCall) :
    (s.after cs).repoIds.Nodup := by
  induction cs generalizing s with
  | nil => exact hs
  | cons c cs ih => exact ih (repoIds_perform hs c)

/-! ## Lists -/

/-- The repositories that are listed have the names that are stored. -/
theorem listRepos_ids (s : Store) : (s.listRepos.map (·.source.id)).Perm s.repoIds := by
  have hmap : s.listRepos.map (·.source.id) = s.repoRows.map RepoRow.id := by
    rw [listRepos, List.map_map]
    exact List.map_congr_left fun r _ => congrArg RepoSource.id r.source_read
  rw [hmap]
  exact (List.mergeSort_perm _ _).map RepoRow.id

/-- A repository that is listed is the one of its name. -/
theorem getRepo_of_mem (hs : s.repoIds.Nodup) {repo : Repo} (h : repo ∈ s.listRepos) :
    s.getRepo repo.source.id = some repo := by
  obtain ⟨row, hrow, rfl⟩ := List.mem_map.mp h
  have hmem : row ∈ s.repos := List.mem_mergeSort.mp hrow
  rw [RepoRow.source_read, RepoRow.id_source, getRepo, (find?_key_iff hs).mpr ⟨hmem, rfl⟩]
  rfl

/-- A register is known by what is found in it, in the order of its rows. -/
theorem repos_ext {s' : Store} (hs : s.repoIds.Nodup) (hids : s'.repoIds = s.repoIds)
    (hget : ∀ id, s'.getRepo id = s.getRepo id) : s'.repos = s.repos := by
  have hlength : s'.repos.length = s.repos.length := by
    simpa [repoIds] using congrArg List.length hids
  refine List.ext_getElem hlength fun i h' h => ?_
  have hid : s'.repos[i].id = s.repos[i].id := by
    simpa [repoIds, h, h'] using congrArg (·[i]?) hids
  have hs' : s'.repoIds.Nodup := by rwa [hids]
  have hfind : s.repos.find? (·.id = s.repos[i].id) = some s.repos[i] :=
    (find?_key_iff hs).mpr ⟨List.getElem_mem h, rfl⟩
  have hfind' : s'.repos.find? (·.id = s.repos[i].id) = some s'.repos[i] :=
    (find?_key_iff hs').mpr ⟨List.getElem_mem h', hid⟩
  have hrow := hget s.repos[i].id
  rw [getRepo, getRepo, hfind, hfind'] at hrow
  exact RepoRow.read_inj (Option.some.inj hrow)

end Store

end LintPatrol
