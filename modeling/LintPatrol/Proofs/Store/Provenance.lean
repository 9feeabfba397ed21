import Mathlib.Data.List.Induction
import LintPatrol.Proofs.Store.Registry

/-!
# LintPatrol.Proofs.Store.Provenance

Where the rows of the register come from.  A fact about a store is often decided
by the latest call of some kind, whatever was called before it; then it holds
after a run just if the latest such call has made it hold (`holds_after_iff`).
Four facts of the register are of this kind:

* a repository, or a linter, is stored at some place (`watchesAt_after_iff`,
  `registersAt_after_iff`): the latest call on it decides;
* a repository is stored at some place with some commit
  (`showsCommit_after_iff`): a repository stored once more at the same place,
  without a commit, decides nothing;
* a linter is stored with some image and digest (`carriesImage_after_iff`): a
  linter stored once more without an image decides nothing, wherever its sources
  are.

The main result, `Store.register_traced`, says it of every row.
-/

namespace LintPatrol

/-! ## The latest call -/

/-- Of some calls, `c` is the latest one with the property. -/
def Latest (p : StoreCall → Prop) (cs : List StoreCall) (c : StoreCall) : Prop :=
  p c ∧ ∃ before later, cs = before ++ c :: later ∧ ∀ d ∈ later, ¬p d

theorem not_latest_nil (p : StoreCall → Prop) (c : StoreCall) : ¬Latest p [] c := by
  rintro ⟨-, before, later, h, -⟩
  simp at h

/-- A call with the property is the latest one; any other changes nothing. -/
theorem latest_concat (p : StoreCall → Prop) (cs : List StoreCall) (d c : StoreCall) :
    Latest p (cs ++ [d]) c ↔ (p d ∧ c = d) ∨ (¬p d ∧ Latest p cs c) := by
  constructor
  · rintro ⟨hc, before, later, heq, hlater⟩
    rcases List.eq_nil_or_concat later with rfl | ⟨later, e, rfl⟩
    · obtain ⟨-, rfl⟩ := List.append_singleton_inj.mp heq
      exact .inl ⟨hc, rfl⟩
    · rw [List.concat_eq_append, ← List.cons_append, ← List.append_assoc] at heq
      obtain ⟨rfl, rfl⟩ := List.append_singleton_inj.mp heq
      exact .inr ⟨hlater d (by simp), hc, before, later, rfl, fun e he => hlater e (by simp [he])⟩
  · rintro (⟨hd, rfl⟩ | ⟨hd, hc, before, later, rfl, hlater⟩)
    · exact ⟨hd, cs, [], rfl, by simp⟩
    · refine ⟨hc, before, later ++ [d], by simp, fun e he => ?_⟩
      rcases List.mem_append.mp he with he | he
      · exact hlater e he
      · rwa [List.mem_singleton.mp he]

/-- The latest call of a kind has been made. -/
theorem Latest.mem {p : StoreCall → Prop} {cs : List StoreCall} {c : StoreCall}
    (h : Latest p cs c) : c ∈ cs := by
  obtain ⟨-, before, later, rfl, -⟩ := h
  simp

namespace Store

/-- A fact that some calls decide, and the others leave as it is, holds after a
run if and only if the latest call that decides it has made it hold. -/
theorem holds_after_iff (fact : Store → Prop) (decides makes : StoreCall → Prop)
    (hempty : ¬fact empty)
    (hdecided : ∀ s c, decides c → (fact (c.perform s).2 ↔ makes c))
    (hkept : ∀ s c, ¬decides c → (fact (c.perform s).2 ↔ fact s)) (cs : List StoreCall) :
    fact (empty.after cs) ↔ ∃ c, Latest decides cs c ∧ makes c := by
  induction cs using List.reverseRecOn with
  | nil => simp [hempty, not_latest_nil]
  | append_singleton cs c ih =>
    rw [after_concat]
    simp only [latest_concat]
    by_cases hc : decides c
    · simp [hdecided _ c hc, hc]
    · simp [hkept _ c hc, hc, ih]

end Store

/-! ## Calls on the register -/

/-- What `resolve` makes of a source is the only way in which a repository comes
with a commit. -/
def Repo.AsFetched (repo : Repo) : Prop :=
  repo = .unresolved repo.source ∨ ∃ commit, repo = repo.resolve commit

/-- A repository that is stored with a commit, as fetching makes it, is known by
its source and that commit. -/
theorem Repo.AsFetched.eq_resolve {repo : Repo} (h : repo.AsFetched) {commit : String}
    (hcommit : repo.revision?.map RepoRevision.commit = some commit) :
    repo = (Repo.unresolved repo.source).resolve commit := by
  rcases h with h | ⟨found, h⟩
  · rw [h] at hcommit
    cases hcommit
  · rw [h] at hcommit
    cases hcommit
    exact h

namespace StoreCall

/-- Is the call one on the repository of that name? -/
def OnRepo (id : String) : StoreCall → Prop
  | putRepo repo => repo.source.id = id
  | deleteRepo removed => removed = id
  | _ => False

/-- Does the call, being one on that repository, do more than store it once more
at the same place without a commit? -/
def DecidesCommit (source : RepoSource) (c : StoreCall) : Prop :=
  c.OnRepo source.id ∧ c ≠ putRepo (.unresolved source)

/-- Is a repository stored of which that is true? -/
def PutsRepo (p : Repo → Prop) : StoreCall → Prop
  | putRepo repo => p repo
  | _ => False

/-- Is the call one on the linter of that name? -/
def OnLinter (id : String) : StoreCall → Prop
  | putLinter linter => linter.source.id = id
  | deleteLinter removed => removed = id
  | _ => False

/-- Does the call, being one on that linter, do more than store it once more
without an image? -/
def DecidesImage (id : String) : StoreCall → Prop
  | putLinter linter => linter.source.id = id ∧ linter.image? ≠ none
  | deleteLinter removed => removed = id
  | _ => False

/-- Is a linter stored of which that is true? -/
def PutsLinter (p : Linter → Prop) : StoreCall → Prop
  | putLinter linter => p linter
  | _ => False

end StoreCall

@[simp] theorem LinterRow.id_source (row : LinterRow) : row.source.id = row.id := rfl

@[simp] theorem LinterRow.id_update (linter : Linter) (old : Option LinterRow) :
    (update linter old).id = linter.source.id := rfl

/-- A latest call that stores such a repository is a latest call that stores it. -/
theorem exists_putsRepo_iff {p : StoreCall → Prop} {cs : List StoreCall} {q : Repo → Prop} :
    (∃ c, Latest p cs c ∧ c.PutsRepo q) ↔ ∃ repo, Latest p cs (.putRepo repo) ∧ q repo := by
  constructor
  · rintro ⟨c, hc, hq⟩
    cases c with
    | putRepo repo => exact ⟨repo, hc, hq⟩
    | _ => exact hq.elim
  · rintro ⟨repo, hc, hq⟩
    exact ⟨_, hc, hq⟩

theorem exists_putsLinter_iff {p : StoreCall → Prop} {cs : List StoreCall} {q : Linter → Prop} :
    (∃ c, Latest p cs c ∧ c.PutsLinter q) ↔
      ∃ linter, Latest p cs (.putLinter linter) ∧ q linter := by
  constructor
  · rintro ⟨c, hc, hq⟩
    cases c with
    | putLinter linter => exact ⟨linter, hc, hq⟩
    | _ => exact hq.elim
  · rintro ⟨linter, hc, hq⟩
    exact ⟨_, hc, hq⟩

namespace Store

variable {s : Store} {id : String}

/-! ## Rows of repositories -/

def repoRow? (s : Store) (id : String) : Option RepoRow := s.repos.find? (·.id = id)

/-- To store a repository changes the row of its name. -/
theorem repoRow?_putRepo (s : Store) (repo : Repo) (id : String) :
    (s.putRepo repo).repoRow? id =
      if id = repo.source.id then some (RepoRow.update repo (s.repoRow? id)) else s.repoRow? id :=
  find?_putRow_key RepoRow.id (fun o _ => RepoRow.id_update repo o) s.repos id

/-- To remove one takes away the row of its name. -/
theorem repoRow?_deleteRepo (s : Store) (removed id : String) :
    (s.deleteRepo removed).2.repoRow? id = if id = removed then none else s.repoRow? id :=
  find?_filter_key RepoRow.id s.repos removed id

/-- A call that is not on a repository leaves its row alone. -/
theorem repoRow?_of_not_onRepo {c : StoreCall} (h : ¬c.OnRepo id) (s : Store) :
    (c.perform s).2.repoRow? id = s.repoRow? id := by
  cases c with
  | putRepo repo => exact (s.repoRow?_putRepo repo id).trans (if_neg (Ne.symm h))
  | deleteRepo removed => exact (s.repoRow?_deleteRepo removed id).trans (if_neg (Ne.symm h))
  | putLinter | deleteLinter => rfl
  | tryAdd | tryTake | set | moderate => rw [repoRow?, (registry_perform rfl s).1, repoRow?]

/-- Is the repository stored, and at that place? -/
def WatchesAt (s : Store) (source : RepoSource) : Prop :=
  (s.repoRow? source.id).map RepoRow.source = some source

/-- Is the repository stored at that place, and with that commit? -/
def ShowsCommit (s : Store) (source : RepoSource) (commit : String) : Prop :=
  s.repoRow? source.id = some ⟨source.id, source.url, source.branch, some commit⟩

/-- After a repository is stored it is watched where that says. -/
theorem watchesAt_putRepo (s : Store) (repo : Repo) {source : RepoSource}
    (h : repo.source.id = source.id) :
    (s.putRepo repo).WatchesAt source ↔ repo.source = source := by
  rw [WatchesAt, repoRow?_putRepo, if_pos h.symm]
  simp [RepoRow.update, RepoRow.source]

/-- A repository is stored at a place just if the latest call on it has stored it
there. -/
theorem watchesAt_after_iff (cs : List StoreCall) (source : RepoSource) :
    (empty.after cs).WatchesAt source ↔
      ∃ repo, Latest (·.OnRepo source.id) cs (.putRepo repo) ∧ repo.source = source := by
  rw [← exists_putsRepo_iff]
  refine holds_after_iff (WatchesAt · source) _ _ (by simp [WatchesAt, repoRow?, empty])
    (fun s c hc => ?_) (fun s c hc => ?_) cs
  · cases c with
    | putRepo repo => exact s.watchesAt_putRepo repo hc
    | deleteRepo removed =>
      have hgone := (s.repoRow?_deleteRepo removed source.id).trans (if_pos (Eq.symm hc))
      simp [WatchesAt, StoreCall.perform, hgone, StoreCall.PutsRepo]
    | _ => exact hc.elim
  · rw [WatchesAt, repoRow?_of_not_onRepo hc, WatchesAt]

/-- After a fetched repository is stored it shows the commit that was fetched. -/
theorem showsCommit_putRepo (s : Store) (repo : Repo) {source : RepoSource} {commit : String}
    (h : repo.source.id = source.id) (hne : repo ≠ .unresolved source) :
    (s.putRepo repo).ShowsCommit source commit ↔
      repo.source = source ∧ repo.revision?.map RepoRevision.commit = some commit := by
  rw [ShowsCommit, repoRow?_putRepo, if_pos h.symm]
  obtain ⟨id, url, branch⟩ := source
  cases repo with
  | unresolved other =>
    -- It has moved, and comes without a commit.
    obtain ⟨_, url', branch'⟩ := other
    simp_all [Repo.source, Repo.revision?, RepoRow.update]
  | resolved other revision =>
    obtain ⟨_, url', branch'⟩ := other
    simp [Repo.source, Repo.revision?, RepoRow.update, and_assoc]

/-- A repository that is stored once more where it is, without a commit, is stored
there with the commit it had. -/
theorem showsCommit_putRepo_unresolved (s : Store) (source : RepoSource) (commit : String) :
    (s.putRepo (.unresolved source)).ShowsCommit source commit ↔ s.ShowsCommit source commit := by
  have hput : (s.putRepo (.unresolved source)).repoRow? source.id =
      some (RepoRow.update (.unresolved source) (s.repoRow? source.id)) :=
    (s.repoRow?_putRepo (.unresolved source) source.id).trans (if_pos rfl)
  rw [ShowsCommit, hput, ShowsCommit]
  cases hrow : s.repoRow? source.id with
  | none => simp [RepoRow.update, Repo.revision?]
  | some row =>
    obtain ⟨id, url, branch, found⟩ := row
    have hid : id = source.id := by simpa using List.find?_some hrow
    by_cases hplace : url = source.url ∧ branch = source.branch
    · simp [RepoRow.update, Repo.revision?, Repo.source, hid, hplace]
    · simp [RepoRow.update, Repo.revision?, Repo.source, hplace, ← and_assoc]

/-- A repository is stored at a place with a commit just if it was stored so
together, and was not moved, removed or fetched since. -/
theorem showsCommit_after_iff (cs : List StoreCall) (source : RepoSource) (commit : String) :
    (empty.after cs).ShowsCommit source commit ↔
      ∃ repo, Latest (·.DecidesCommit source) cs (.putRepo repo) ∧ repo.source = source ∧
        repo.revision?.map RepoRevision.commit = some commit := by
  rw [← exists_putsRepo_iff]
  refine holds_after_iff (ShowsCommit · source commit) _ _ (by simp [ShowsCommit, repoRow?, empty])
    (fun s c hc => ?_) (fun s c hc => ?_) cs
  · obtain ⟨hon, hne⟩ := hc
    cases c with
    | putRepo repo => exact s.showsCommit_putRepo repo hon fun h => hne (h ▸ rfl)
    | deleteRepo removed =>
      have hgone := (s.repoRow?_deleteRepo removed source.id).trans (if_pos (Eq.symm hon))
      simp [ShowsCommit, StoreCall.perform, hgone, StoreCall.PutsRepo]
    | _ => exact hon.elim
  · rcases not_and_or.mp hc with hon | heq
    · rw [ShowsCommit, repoRow?_of_not_onRepo hon, ShowsCommit]
    · rw [not_not.mp heq]
      exact s.showsCommit_putRepo_unresolved source commit

/-! ## Rows of linters -/

def linterRow? (s : Store) (id : String) : Option LinterRow := s.linters.find? (·.id = id)

/-- To store a linter changes the row of its name. -/
theorem linterRow?_putLinter (s : Store) (linter : Linter) (id : String) :
    (s.putLinter linter).linterRow? id =
      if id = linter.source.id then some (LinterRow.update linter (s.linterRow? id))
      else s.linterRow? id :=
  find?_putRow_key LinterRow.id (fun o _ => LinterRow.id_update linter o) s.linters id

/-- To remove one takes away the row of its name. -/
theorem linterRow?_deleteLinter (s : Store) (removed id : String) :
    (s.deleteLinter removed).2.linterRow? id = if id = removed then none else s.linterRow? id :=
  find?_filter_key LinterRow.id s.linters removed id

/-- A call that is not on a linter leaves its row alone. -/
theorem linterRow?_of_not_onLinter {c : StoreCall} (h : ¬c.OnLinter id) (s : Store) :
    (c.perform s).2.linterRow? id = s.linterRow? id := by
  cases c with
  | putLinter linter => exact (s.linterRow?_putLinter linter id).trans (if_neg (Ne.symm h))
  | deleteLinter removed => exact (s.linterRow?_deleteLinter removed id).trans (if_neg (Ne.symm h))
  | putRepo | deleteRepo => rfl
  | tryAdd | tryTake | set | moderate => rw [linterRow?, (registry_perform rfl s).2, linterRow?]

/-- Is the linter stored, with its sources at that place? -/
def RegistersAt (s : Store) (source : LinterSource) : Prop :=
  (s.linterRow? source.id).map LinterRow.source = some source

/-- Is the linter stored with that image and digest? -/
def CarriesImage (s : Store) (id image digest : String) : Prop :=
  ∃ row, s.linterRow? id = some row ∧ row.image = some image ∧ row.digest = some digest

/-- A linter's sources are stored at a place just if the latest call on it has
stored them there. -/
theorem registersAt_after_iff (cs : List StoreCall) (source : LinterSource) :
    (empty.after cs).RegistersAt source ↔
      ∃ linter, Latest (·.OnLinter source.id) cs (.putLinter linter) ∧ linter.source = source := by
  rw [← exists_putsLinter_iff]
  refine holds_after_iff (RegistersAt · source) _ _ (by simp [RegistersAt, linterRow?, empty])
    (fun s c hc => ?_) (fun s c hc => ?_) cs
  · cases c with
    | putLinter linter =>
      have hput := (s.linterRow?_putLinter linter source.id).trans (if_pos (Eq.symm hc))
      simp [RegistersAt, StoreCall.perform, hput, StoreCall.PutsLinter, LinterRow.update,
        LinterRow.source]
    | deleteLinter removed =>
      have hgone := (s.linterRow?_deleteLinter removed source.id).trans (if_pos (Eq.symm hc))
      simp [RegistersAt, StoreCall.perform, hgone, StoreCall.PutsLinter]
    | _ => exact hc.elim
  · rw [RegistersAt, linterRow?_of_not_onLinter hc, RegistersAt]

/-- A linter that is stored once more without an image has the image it had. -/
theorem linterRow?_putLinter_unresolved (s : Store) (source : LinterSource) :
    (s.putLinter (.unresolved source)).linterRow? source.id =
      some ⟨source.id, source.url, source.branch, (s.linterRow? source.id).bind (·.image),
        (s.linterRow? source.id).bind (·.digest)⟩ := by
  rw [linterRow?_putLinter, if_pos (show source.id = (Linter.unresolved source).source.id from rfl)]
  rfl

/-- A linter is stored with an image and a digest just if it was stored with both
together, and neither with others nor removed since. -/
theorem carriesImage_after_iff (cs : List StoreCall) (id image digest : String) :
    (empty.after cs).CarriesImage id image digest ↔
      ∃ linter, Latest (·.DecidesImage id) cs (.putLinter linter) ∧
        ∃ source known, linter = .resolved source ⟨known, image, digest⟩ := by
  rw [← exists_putsLinter_iff]
  refine holds_after_iff (CarriesImage · id image digest) _ _
    (by simp [CarriesImage, linterRow?, empty]) (fun s c hc => ?_) (fun s c hc => ?_) cs
  · cases c with
    | putLinter linter =>
      have hput := (s.linterRow?_putLinter linter id).trans (if_pos (Eq.symm hc.1))
      cases linter with
      | unresolved source => exact absurd rfl hc.2
      | resolved source found =>
        obtain ⟨known, image', digest'⟩ := found
        simp [CarriesImage, StoreCall.perform, hput, StoreCall.PutsLinter, LinterRow.update,
          Linter.image?]
    | deleteLinter removed =>
      have hgone := (s.linterRow?_deleteLinter removed id).trans (if_pos (Eq.symm hc))
      simp [CarriesImage, StoreCall.perform, hgone, StoreCall.PutsLinter]
    | _ => exact hc.elim
  · by_cases hon : c.OnLinter id
    · cases c with
      | putLinter linter =>
        cases linter with
        | unresolved source =>
          have hid : source.id = id := hon
          subst hid
          simp only [CarriesImage, StoreCall.perform, linterRow?_putLinter_unresolved]
          cases s.linterRow? source.id <;> simp
        | resolved source found => exact absurd ⟨hon, by simp [Linter.image?]⟩ hc
      | deleteLinter removed => exact absurd hon hc
      | _ => exact hon.elim
    · simp only [CarriesImage, linterRow?_of_not_onLinter hon]

/-- Image and digest are stored together. -/
def Paired (row : LinterRow) : Prop := row.image.isSome ↔ row.digest.isSome

/-- Whatever is called, an image is stored with its digest. -/
theorem paired_after (cs : List StoreCall) : ∀ row ∈ (empty.after cs).linters, Paired row := by
  induction cs using List.reverseRecOn with
  | nil => simp [empty]
  | append_singleton cs c ih =>
    rw [after_concat]
    cases c with
    | putLinter linter =>
      refine forall_putRow ih fun old hold => ?_
      cases linter <;> cases old <;> simp_all [Paired, LinterRow.update, Linter.image?]
    | deleteLinter id => exact fun row hrow => ih row (List.mem_of_mem_filter hrow)
    | putRepo | deleteRepo => exact ih
    | tryAdd | tryTake | set | moderate => rwa [(registry_perform rfl _).2]

/-- In every store that calls lead to, the names of linters are unique. -/
theorem linterIds_after (cs : List StoreCall) :
    ((empty.after cs).linters.map LinterRow.id).Nodup := by
  induction cs using List.reverseRecOn with
  | nil => exact List.nodup_nil
  | append_singleton cs c ih =>
    rw [after_concat]
    cases c with
    | putLinter linter =>
      exact nodup_putRow LinterRow.id (fun o _ => LinterRow.id_update linter o) ih
    | deleteLinter id => exact ih.sublist (List.filter_sublist.map LinterRow.id)
    | putRepo | deleteRepo => exact ih
    | tryAdd | tryTake | set | moderate => rwa [(registry_perform rfl _).2]

/-! ## Where rows come from -/

/-- What calls have to do with the register that they leave. -/
structure Traced (cs : List StoreCall) (s : Store) : Prop where
  /-- A repository is where the latest call on it has stored it. -/
  repo : ∀ row ∈ s.repos, ∃ repo, Latest (·.OnRepo row.id) cs (.putRepo repo) ∧
    repo.source = row.source
  /-- It has a commit just if it was stored where it is with that commit, and all
  that was done to it since is to store it once more in the same place. -/
  commit : ∀ row ∈ s.repos, ∀ commit, row.commit = some commit ↔
    Latest (·.DecidesCommit row.source) cs (.putRepo ((Repo.unresolved row.source).resolve commit))
  /-- So a commit that is shown is one that was fetched from where it is shown. -/
  shown : ∀ repo ∈ s.listRepos, repo.revision? ≠ none →
    Latest (·.DecidesCommit repo.source) cs (.putRepo repo)
  /-- A linter's sources are where the latest call on it has stored them. -/
  linter : ∀ row ∈ s.linters, ∃ linter, Latest (·.OnLinter row.id) cs (.putLinter linter) ∧
    linter.source = row.source
  /-- It has an image just if it has a digest. -/
  paired : ∀ row ∈ s.linters, row.image.isSome ↔ row.digest.isSome
  /-- Those are the ones it was stored with when it was last stored with any,
  unless it was removed since. -/
  image : ∀ row ∈ s.linters, ∀ image digest,
    (row.image = some image ∧ row.digest = some digest) ↔
      ∃ source known,
        Latest (·.DecidesImage row.id) cs (.putLinter (.resolved source ⟨known, image, digest⟩))
  /-- To store a linter without an image leaves it the one it has. -/
  kept : ∀ row ∈ s.linters, ∀ url branch,
    (s.putLinter (.unresolved ⟨row.id, url, branch⟩)).linterRow? row.id =
      some ⟨row.id, url, branch, row.image, row.digest⟩
  /-- There is one row of each name. -/
  unique : s.repoIds.Nodup ∧ (s.linters.map LinterRow.id).Nodup

variable {cs : List StoreCall}

/-- The row of a name is the one that is looked up. -/
theorem repoRow?_eq_of_mem {row : RepoRow} (h : row ∈ (empty.after cs).repos) :
    (empty.after cs).repoRow? row.id = some row :=
  (find?_key_iff (repoIds_after (s := empty) List.nodup_nil cs)).mpr ⟨h, rfl⟩

/-- A linter that is stored is found by its name. -/
theorem linterRow?_eq_of_mem {row : LinterRow} (h : row ∈ (empty.after cs).linters) :
    (empty.after cs).linterRow? row.id = some row :=
  (find?_key_iff (linterIds_after cs)).mpr ⟨h, rfl⟩

/-- The commit of a row. -/
theorem commit_eq_some_iff (hfetched : ∀ repo, .putRepo repo ∈ cs → repo.AsFetched)
    {row : RepoRow} (h : row ∈ (empty.after cs).repos) (commit : String) :
    row.commit = some commit ↔ Latest (·.DecidesCommit row.source) cs
      (.putRepo ((Repo.unresolved row.source).resolve commit)) := by
  have hshows : row.commit = some commit ↔ (empty.after cs).ShowsCommit row.source commit := by
    rw [ShowsCommit, RepoRow.id_source, repoRow?_eq_of_mem h]
    obtain ⟨id, url, branch, found⟩ := row
    simp [RepoRow.source]
  rw [hshows, showsCommit_after_iff]
  constructor
  · rintro ⟨repo, hlatest, hsource, hcommit⟩
    rw [← hsource, ← (hfetched repo hlatest.mem).eq_resolve hcommit, hsource]
    exact hlatest
  · exact fun hlatest => ⟨_, hlatest, rfl, rfl⟩

/-- **What the register shows was stored so**: in every store that calls lead to,
a repository is where it was stored last, and has a commit just if it was stored
with it there and not moved since; a linter has image and digest together, the
ones it was last stored with; and nothing goes back behind a removal. -/
theorem register_traced (cs : List StoreCall)
    (hfetched : ∀ repo, .putRepo repo ∈ cs → repo.AsFetched) : Traced cs (empty.after cs) where
  repo row hrow := by
    refine (watchesAt_after_iff cs row.source).mp ?_
    rw [WatchesAt, RepoRow.id_source, repoRow?_eq_of_mem hrow, Option.map_some]
  commit row hrow commit := commit_eq_some_iff hfetched hrow commit
  shown repo hrepo hne := by
    obtain ⟨row, hrow, rfl⟩ := List.mem_map.mp hrepo
    have hmem : row ∈ (empty.after cs).repos := List.mem_mergeSort.mp hrow
    cases hcommit : row.commit with
    | none => simp [RepoRow.read, hcommit, Repo.revision?] at hne
    | some commit =>
      have hread : row.read = (Repo.unresolved row.source).resolve commit := by
        simp [RepoRow.read, hcommit]
      rw [RepoRow.source_read, hread]
      exact (commit_eq_some_iff hfetched hmem commit).mp hcommit
  linter row hrow := by
    refine (registersAt_after_iff cs row.source).mp ?_
    rw [RegistersAt, LinterRow.id_source, linterRow?_eq_of_mem hrow, Option.map_some]
  paired row hrow := paired_after cs row hrow
  image row hrow image digest := by
    have hcarries := carriesImage_after_iff cs row.id image digest
    rw [CarriesImage, linterRow?_eq_of_mem hrow] at hcarries
    simp only [Option.some.injEq, exists_eq_left'] at hcarries
    rw [hcarries]
    constructor
    · rintro ⟨_, hlatest, source, known, rfl⟩
      exact ⟨source, known, hlatest⟩
    · rintro ⟨source, known, hlatest⟩
      exact ⟨_, hlatest, source, known, rfl⟩
  kept row hrow url branch := by
    rw [linterRow?_putLinter_unresolved _ ⟨row.id, url, branch⟩, linterRow?_eq_of_mem hrow]
    rfl
  unique := ⟨repoIds_after (s := empty) List.nodup_nil cs, linterIds_after cs⟩

/-- A repository that was fetched, moved away and moved back, and a linter with an
image whose sources have moved. -/
def movings : List StoreCall :=
  let here : Repo := .unresolved ⟨"r", "https://here", "main"⟩
  [.putRepo here, .putRepo (here.resolve "c0ffee"), .putRepo here,
    .putRepo (.unresolved ⟨"r", "https://here", "dev"⟩), .putRepo here,
    .putLinter (.resolved ⟨"l", "https://linter", "main"⟩ ⟨"l", "image", "digest"⟩),
    .putLinter (.unresolved ⟨"l", "https://moved", "main"⟩)]

/-- The commit is forgotten, and the image is not. -/
theorem register_traced_moved :
    (∀ repo, .putRepo repo ∈ movings → repo.AsFetched) ∧
      (∀ commit, ¬Latest (·.DecidesCommit ⟨"r", "https://here", "main"⟩) movings
        (.putRepo ((Repo.unresolved ⟨"r", "https://here", "main"⟩).resolve commit))) ∧
      ∃ source known, Latest (·.DecidesImage "l") movings
        (.putLinter (.resolved source ⟨known, "image", "digest"⟩)) := by
  have hfetched : ∀ repo, .putRepo repo ∈ movings → repo.AsFetched := by
    intro repo hrepo
    simp only [movings, List.mem_cons, StoreCall.putRepo.injEq, reduceCtorEq, List.not_mem_nil,
      or_false, or_self] at hrepo
    rcases hrepo with rfl | rfl | rfl | rfl | rfl
    · exact .inl rfl
    · exact .inr ⟨"c0ffee", rfl⟩
    · exact .inl rfl
    · exact .inl rfl
    · exact .inl rfl
  have htraced := register_traced movings hfetched
  have hrepo : ⟨"r", "https://here", "main", none⟩ ∈ (empty.after movings).repos := by decide
  have hlinter : ⟨"l", "https://moved", "main", some "image", some "digest"⟩ ∈
      (empty.after movings).linters := by decide
  refine ⟨hfetched, fun commit hlatest => ?_,
    (htraced.image _ hlinter "image" "digest").mp ⟨rfl, rfl⟩⟩
  exact absurd ((htraced.commit _ hrepo commit).mpr hlatest) (by simp)

end Store

end LintPatrol
