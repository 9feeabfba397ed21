import LintPatrol.Proofs.Role.Alone
import LintPatrol.Proofs.Role.Asking
import LintPatrol.Proofs.Role.Refresh
import LintPatrol.Role.World

/-!
# LintPatrol.Proofs.Role.Pass

One pass of a scheduler that has the store to itself and is on time, over any
repositories, of which any may not be found, in any order.

* `Fetched` is a repository with what came of fetching it; all that a pass
  leaves is said in terms of the list of these.
* `Passed` relates the world before a pass over some repositories to the one
  after.  A pass over two lists is the pass over the one and then over the other
  (`Passed.trans`), so that it is enough to look at a single repository
  (`passed_of_error`, `passed_of_ok`).
* `Left` says the same of a whole pass without speaking of the order, in which
  repositories that share a head could otherwise be told apart.

A pass that finds nothing new is a pass that changes nothing
(`Passed.eq_of_same`).  The main result is `Scheduler.pass_leaves`.
-/

namespace LintPatrol

open Time

/-! ## What was fetched -/

/-- A repository, with what came of fetching it. -/
abbrev Fetched := Repo × Except Failure String

namespace Fetched

/-- The repository with the commit that was found. -/
def resolved? (f : Fetched) : Option Repo :=
  match f.2 with
  | .ok commit => some (f.1.resolve commit)
  | .error _ => none

/-- The revision that was found. -/
def revision? (f : Fetched) : Option RepoRevision :=
  match f.2 with
  | .ok commit => some ⟨f.1.source.id, f.1.source.url, commit⟩
  | .error _ => none

/-- What is asked for: every linter on every revision that was found. -/
def pairs (fs : List Fetched) (images : List LinterImage) : List (RepoRevision × LinterImage) :=
  (fs.filterMap revision?).flatMap fun revision => images.map (revision, ·)

theorem pairs_append (fs gs : List Fetched) (images : List LinterImage) :
    pairs (fs ++ gs) images = pairs fs images ++ pairs gs images := by
  rw [pairs, List.filterMap_append, List.flatMap_append, pairs, pairs]

/-- All linters are run on a revision that was found. -/
theorem pairs_ok (repo : Repo) (commit : String) (images : List LinterImage) :
    pairs [(repo, .ok commit)] images =
      images.map (⟨repo.source.id, repo.source.url, commit⟩, ·) := by
  simp [pairs, revision?]

/-- All linters are asked for on all heads that were found. -/
theorem mem_pairs {fs : List Fetched} {images : List LinterImage} {p : RepoRevision × LinterImage} :
    p ∈ pairs fs images ↔ ∃ repo commit, (repo, .ok commit) ∈ fs ∧
      p.1 = ⟨repo.source.id, repo.source.url, commit⟩ ∧ p.2 ∈ images := by
  simp only [pairs, List.mem_flatMap, List.mem_filterMap, List.mem_map]
  constructor
  · rintro ⟨revision, ⟨⟨repo, found⟩, hmem, hrevision⟩, image, himage, rfl⟩
    cases found with
    | error e => cases hrevision
    | ok commit => exact ⟨repo, commit, hmem, (Option.some.inj hrevision).symm, himage⟩
  · rintro ⟨repo, commit, hmem, hrevision, himage⟩
    exact ⟨p.1, ⟨_, hmem, hrevision ▸ rfl⟩, p.2, himage, rfl⟩

/-- The fingerprints that are asked for. -/
theorem exists_pair_iff {fs : List Fetched} {images : List LinterImage} {f : Fingerprint} :
    (∃ p ∈ pairs fs images, Fingerprint.ofPair p.1 p.2 = f) ↔
      ∃ repo commit, (repo, .ok commit) ∈ fs ∧
        ∃ image ∈ images, f = ⟨commit, image.id, image.digest⟩ := by
  constructor
  · rintro ⟨p, hp, rfl⟩
    obtain ⟨repo, commit, hmem, hrevision, himage⟩ := mem_pairs.mp hp
    exact ⟨repo, commit, hmem, p.2, himage, by rw [hrevision]; rfl⟩
  · rintro ⟨repo, commit, hmem, image, himage, rfl⟩
    exact ⟨(⟨repo.source.id, repo.source.url, commit⟩, image),
      mem_pairs.mpr ⟨repo, commit, hmem, rfl, himage⟩, rfl⟩

/-- The repository of a name as it was stored last. -/
def latest? (fs : List Fetched) (id : String) : Option Repo :=
  (fs.filterMap resolved?).reverse.find? (·.source.id = id)

/-- What was found last counts. -/
theorem latest?_append (fs gs : List Fetched) (id : String) :
    latest? (fs ++ gs) id = (latest? gs id).or (latest? fs id) := by
  rw [latest?, List.filterMap_append, List.reverse_append, List.find?_append, latest?, latest?]

/-- What was stored last is a repository that was found. -/
theorem mem_of_latest? {fs : List Fetched} {id : String} {stored : Repo}
    (h : latest? fs id = some stored) :
    ∃ repo commit, (repo, .ok commit) ∈ fs ∧ repo.source.id = id ∧
      stored = repo.resolve commit := by
  have hid : stored.source.id = id := by simpa using List.find?_some h
  obtain ⟨⟨repo, found⟩, hmem, hresolved⟩ :=
    List.mem_filterMap.mp (List.mem_reverse.mp (List.mem_of_find?_eq_some h))
  cases found with
  | error e => cases hresolved
  | ok commit =>
    cases hresolved
    exact ⟨repo, commit, hmem, hid, rfl⟩

/-- A repository that was not found is not stored. -/
theorem latest?_eq_none {fs : List Fetched} {id : String}
    (h : ∀ repo commit, (repo, .ok commit) ∈ fs → repo.source.id ≠ id) : latest? fs id = none := by
  refine Option.eq_none_iff_forall_ne_some.mpr fun stored hstored => ?_
  obtain ⟨repo, commit, hmem, hid, -⟩ := mem_of_latest? hstored
  exact h repo commit hmem hid

/-- A repository that was found is stored with its commit. -/
theorem latest?_eq_some {fs : List Fetched} (hids : (fs.map (·.1.source.id)).Nodup) {repo : Repo}
    {commit : String} (h : (repo, .ok commit) ∈ fs) :
    latest? fs repo.source.id = some (repo.resolve commit) := by
  have hsublist :
      ((fs.filterMap resolved?).map (·.source.id)).Sublist (fs.map (·.1.source.id)) := by
    clear hids h
    induction fs with
    | nil => exact .slnil
    | cons f fs ih =>
      obtain ⟨source, found⟩ := f
      cases found with
      | error e => exact ih.cons _
      | ok commit => exact ih.cons_cons _
  have hkeys : ((fs.filterMap resolved?).reverse.map (·.source.id)).Nodup := by
    rw [List.map_reverse]
    exact List.nodup_reverse.mpr (hids.sublist hsublist)
  refine (find?_key_iff hkeys).mpr ⟨List.mem_reverse.mpr (List.mem_filterMap.mpr ⟨_, h, rfl⟩), rfl⟩

/-- What is found in a register in which one repository has been stored. -/
theorem getRepo_putRepo_resolve (s : Store) (repo : Repo) (commit id : String) :
    (s.putRepo (repo.resolve commit)).getRepo id =
      (latest? [(repo, .ok commit)] id).or (s.getRepo id) := by
  rw [Store.getRepo_putRepo_resolve]
  by_cases hid : id = repo.source.id
  · simp [latest?, resolved?, hid]
  · simp [latest?, resolved?, hid, Ne.symm hid]

end Fetched

/-- The store by itself, with the repositories listed in another order. -/
def Store.keeperIn (order : List Repo → List Repo) : Keeper Store :=
  { Store.keeper with listRepos := fun s => .ok (order s.listRepos) }

/-! ## The stages -/

namespace Services

variable {ε : Type} {order : List Repo → List Repo} {sv : Services Store ε} {scratch : String}
  {s : Scope} {repo : Repo} {w : World Store ε}

/-- The services of a scheduler that has the store to itself.  No statement of
the store fails, and names are not taken back. -/
structure Serves (sv : Services Store ε) (order : List Repo → List Repo) : Prop where
  keeper_eq : sv.keeper = Store.keeperIn order
  alone : sv.Alone
  fetch_named : ∀ s url ref dir w, w.named ≤ (sv.fetch s url ref dir w).2.named

namespace Serves

theorem putRepo_eq (h : sv.Serves order) : sv.keeper.putRepo = Store.keeper.putRepo := by
  rw [h.keeper_eq]
  rfl

theorem tryAdd_eq (h : sv.Serves order) : sv.keeper.tryAdd = Store.keeper.tryAdd := by
  rw [h.keeper_eq]
  rfl

end Serves

/-- To look for a head gives no name back. -/
theorem named_le_head (h : sv.Serves order) (scratch : String) (s : Scope) (repo : Repo)
    (w : World Store ε) : w.named ≤ (sv.head scratch s repo w).2.named := by
  unfold head
  split
  · exact Nat.le_refl _
  · next dir w' hopen =>
    rw [World.named_closeCheckout]
    calc w.named
        ≤ w'.named := (World.openCheckout_ok hopen).2 ▸ Nat.le_succ _
      _ ≤ _ := h.fetch_named s repo.source.url (.branch repo.source.branch) dir w'

/-- A refresh that finds no head ends with that. -/
theorem refreshRepo_of_error {f : Failure} (hfound : (sv.head scratch s repo w).1 = .error f) :
    ∃ reason, sv.refreshRepo scratch s repo w = (.failed reason, (sv.head scratch s repo w).2) := by
  unfold refreshRepo refreshed
  generalize sv.head scratch s repo w = answer at hfound ⊢
  obtain ⟨found, w'⟩ := answer
  cases hfound
  exact ⟨_, rfl⟩

/-- A refresh in time that finds a head stores the repository with it. -/
theorem refreshRepo_of_ok (h : sv.Serves order) {commit : String}
    (hfound : (sv.head scratch s repo w).1 = .ok commit)
    (hlive : (sv.refreshRepo scratch s repo w).2.time.isExpired s = false) :
    sv.refreshRepo scratch s repo w =
      (.produced [repo.resolve commit],
        { (sv.head scratch s repo w).2 with
          data := (sv.head scratch s repo w).2.data.putRepo (repo.resolve commit) }) := by
  unfold refreshRepo at hlive ⊢
  rw [refreshed_eq h.putRepo_eq] at hlive ⊢
  generalize sv.head scratch s repo w = answer at hfound hlive ⊢
  obtain ⟨found, w'⟩ := answer
  cases hfound
  by_cases hexpired : w'.time.isExpired s = true
  · simp [hexpired] at hlive
  · simp only [hexpired, Bool.false_eq_true, if_false]

/-- Nor does a refresh. -/
theorem named_le_refreshRepo (h : sv.Serves order) (scratch : String) (s : Scope) (repo : Repo)
    (w : World Store ε) : w.named ≤ (sv.refreshRepo scratch s repo w).2.named := by
  have hhead := named_le_head h scratch s repo w
  unfold refreshRepo
  rw [refreshed_eq h.putRepo_eq]
  generalize sv.head scratch s repo w = answer at hhead ⊢
  obtain ⟨found, w'⟩ := answer
  cases found with
  | error f => exact hhead
  | ok commit =>
    simp only
    by_cases hexpired : w'.time.isExpired s = true
    · simp only [hexpired, if_true]
      exact hhead
    · simp only [hexpired, Bool.false_eq_true, if_false]
      exact hhead

/-- What becomes of the world when the tasks of a repository are added, whether
there is time for all of them or not. -/
theorem scheduleRepo_cases (sv : Services Store ε) (s : Scope) (repo : Repo) (w : World Store ε) :
    (sv.scheduleRepo s repo w).2 = w ∨ ∃ revision images,
      (sv.scheduleRepo s repo w).2 = (sv.scheduleAll s revision images w).2 := by
  unfold scheduleRepo
  split
  · exact .inl rfl
  · next revision _ =>
    split
    · exact .inl rfl
    · exact .inl rfl
    · next linters _ =>
      refine .inr ⟨revision, Linter.images linters, ?_⟩
      split <;> next hall => rw [hall]

theorem time_scheduleRepo (sv : Services Store ε) (s : Scope) (repo : Repo) (w : World Store ε) :
    (sv.scheduleRepo s repo w).2.time = w.time := by
  rcases sv.scheduleRepo_cases s repo w with heq | ⟨revision, images, heq⟩
  · rw [heq]
  · rw [heq, time_scheduleAll]

/-- Nor do requests for tasks. -/
theorem named_le_scheduleRepo (sv : Services Store ε) (s : Scope) (repo : Repo)
    (w : World Store ε) : w.named ≤ (sv.scheduleRepo s repo w).2.named := by
  rcases sv.scheduleRepo_cases s repo w with heq | ⟨revision, images, heq⟩
  · exact Nat.le_of_eq (congrArg World.named heq).symm
  · rw [heq]
    exact named_le_scheduleAll sv s revision images w

/-- The tasks of a repository that has just been found are asked for. -/
theorem scheduleRepo_of_resolved (h : sv.Serves order) {commit : String}
    (hlive : w.time.isExpired s = false)
    (hlasted : (sv.scheduleAll s ⟨repo.source.id, repo.source.url, commit⟩
      (Linter.images w.data.listLinters) w).1 = true) :
    sv.scheduleRepo s (repo.resolve commit) w =
      (.produced [], (sv.scheduleAll s ⟨repo.source.id, repo.source.url, commit⟩
        (Linter.images w.data.listLinters) w).2) := by
  simp only [scheduleRepo, Repo.resolve, Repo.revision?, World.look_of_live hlive, h.keeper_eq,
    Store.keeperIn, Store.keeper]
  generalize sv.scheduleAll s _ _ w = answer at hlasted ⊢
  obtain ⟨lasted, w'⟩ := answer
  cases hlasted
  rfl

end Services

/-! ## Passes -/

namespace Scheduler

variable {ε : Type}

/-- What a pass over some repositories has made of the world: those that were
found are stored with their commits, their tasks have been added, and all else
that is stored is as it was. -/
structure Passed (sv : Services Store ε) (fs : List Fetched) (w w' : World Store ε)
    (new : List TaskRow) : Prop where
  getRepo_eq : ∀ id, w'.data.getRepo id = (Fetched.latest? fs id).or (w.data.getRepo id)
  repoIds_eq : w'.data.repoIds = w.data.repoIds
  linters_eq : w'.data.linters = w.data.linters
  findings_eq : w'.data.findings = w.data.findings
  asked : Asked sv (Fetched.pairs fs (Linter.images w.data.listLinters)) w w' new

namespace Passed

variable {sv : Services Store ε} {fs gs : List Fetched} {w w' w'' : World Store ε}
  {new later : List TaskRow}

/-- A pass leaves the linters alone. -/
theorem listLinters_eq (h : Passed sv fs w w' new) : w'.data.listLinters = w.data.listLinters :=
  Store.listLinters_congr h.linters_eq

/-- What leaves stored data alone is a pass over nothing. -/
theorem nil (hdata : w'.data = w.data) (hnamed : w.named ≤ w'.named) : Passed sv [] w w' [] where
  getRepo_eq id := by rw [hdata]; rfl
  repoIds_eq := by rw [hdata]
  linters_eq := by rw [hdata]
  findings_eq := by rw [hdata]
  asked := .nil (by rw [hdata]) hnamed

/-- Two passes are one pass over all repositories. -/
theorem trans (h : Passed sv fs w w' new) (h' : Passed sv gs w' w'' later) :
    Passed sv (fs ++ gs) w w'' (new ++ later) where
  getRepo_eq id := by
    rw [h'.getRepo_eq, h.getRepo_eq, Fetched.latest?_append, Option.or_assoc]
  repoIds_eq := h'.repoIds_eq.trans h.repoIds_eq
  linters_eq := h'.linters_eq.trans h.linters_eq
  findings_eq := h'.findings_eq.trans h.findings_eq
  asked := by
    have hlater := h'.asked
    rw [h.listLinters_eq] at hlater
    rw [Fetched.pairs_append]
    exact h.asked.trans hlater

end Passed

/-- The last stage of a pass. -/
def scheduleStage (c : SchedulerConfig) (sv : Services Store ε) : TimedChain Store ε Repo :=
  .step "schedule" (.ofSeconds c.scheduleTimeoutSecs) sv.scheduleRepo .done

/-- The stages from the refreshing of a repository on. -/
def refreshStage (c : SchedulerConfig) (scratch : String) (sv : Services Store ε) :
    TimedChain Store ε Repo :=
  .step "refresh-repo" (.ofSeconds c.refreshTimeoutSecs) (sv.refreshRepo scratch)
    (scheduleStage c sv)

/-- A pass, with what it takes to be on time. -/
def timed (c : SchedulerConfig) (scratch : String) (sv : Services Store ε) :
    TimedChain Store ε Unit :=
  .step "list-repos" (.ofSeconds c.fetchTimeoutSecs) sv.listRepos (refreshStage c scratch sv)

/-- What is on time is a pass itself. -/
theorem rest_timed (c : SchedulerConfig) (scratch : String) (sv : Services Store ε) :
    (timed c scratch sv).rest = pass c scratch sv := rfl

/-- What comes of looking for the head of a repository whose turn it is, and the
world then. -/
def headOf (c : SchedulerConfig) (scratch : String) (sv : Services Store ε) (s : Scope)
    (repo : Repo) (w : World Store ε) : Except Failure String × World Store ε :=
  sv.head scratch (w.stageScope s (.ofSeconds c.refreshTimeoutSecs)) repo
    (w.atStage s (.ofSeconds c.refreshTimeoutSecs))

/-- Some repositories, each with what comes of fetching it when its turn is. -/
def fetched (c : SchedulerConfig) (scratch : String) (sv : Services Store ε) (s : Scope) :
    List Repo → World Store ε → List Fetched
  | [], _ => []
  | repo :: repos, w =>
    (repo, (headOf c scratch sv s repo w).1) ::
      fetched c scratch sv s repos ((refreshStage c scratch sv).rest s repo w).2

section Stages

variable {order : List Repo → List Repo} {c : SchedulerConfig} {scratch : String}
  {sv : Services Store ε} {s : Scope} {w : World Store ε}

theorem keepsNames_refreshStage (h : sv.Serves order) (c : SchedulerConfig) (scratch : String) :
    World.KeepsNames (refreshStage c scratch sv).rest :=
  .step (Services.named_le_refreshRepo h scratch)
    (.step (Services.named_le_scheduleRepo sv) World.keepsNames_done)

/-- The tasks of a repository that was stored with its commit have been asked
for. -/
theorem scheduled (h : sv.Serves order) {repo : Repo} {commit : String}
    (honTime : (scheduleStage c sv).isOnTime s (repo.resolve commit) w = true) {last : Nat}
    (hfresh : NamesFresh sv.taskName w.data w.named last)
    (hlast : ((scheduleStage c sv).rest s (repo.resolve commit) w).2.named ≤ last) :
    ((scheduleStage c sv).rest s (repo.resolve commit) w).1 = none ∧
      (∃ tasks, ((scheduleStage c sv).rest s (repo.resolve commit) w).2.data =
        { w.data with tasks := tasks }) ∧
      ∃ new, Asked sv
        ((Linter.images w.data.listLinters).map (⟨repo.source.id, repo.source.url, commit⟩, ·)) w
        ((scheduleStage c sv).rest s (repo.resolve commit) w).2 new := by
  have hlive := TimedChain.live_of_isOnTime honTime
  rw [Services.time_scheduleRepo] at hlive
  have hlasted := sv.scheduleAll_lasts ⟨repo.source.id, repo.source.url, commit⟩
    (Linter.images w.data.listLinters) hlive
  have hrun : (scheduleStage c sv).rest s (repo.resolve commit) w = (none, _) :=
    World.step_of_nothing (Services.scheduleRepo_of_resolved h hlive hlasted)
  rw [hrun] at hlast ⊢
  obtain ⟨new, hasked⟩ := Services.asked_scheduleAll h.tryAdd_eq _ _ hlive hfresh hlast
  obtain ⟨tasks, hdata⟩ := Services.scheduleAll_frame h.tryAdd_eq _ _ _ _
  have hstart : Asked sv [] w (w.atStage s (.ofSeconds c.scheduleTimeoutSecs)) [] :=
    .nil rfl (Nat.le_refl _)
  exact ⟨rfl, ⟨tasks, hdata⟩, new, hstart.trans hasked⟩

/-- The world when the head of a repository has been looked for. -/
theorem headOf_frame (h : sv.Serves order) (c : SchedulerConfig) (scratch : String) (s : Scope)
    (repo : Repo) (w : World Store ε) :
    (headOf c scratch sv s repo w).2.data = w.data ∧
      w.named ≤ (headOf c scratch sv s repo w).2.named :=
  ⟨Services.data_head h.alone scratch (w.stageScope s (.ofSeconds c.refreshTimeoutSecs)) repo
      (w.atStage s (.ofSeconds c.refreshTimeoutSecs)),
    Services.named_le_head h scratch (w.stageScope s (.ofSeconds c.refreshTimeoutSecs)) repo
      (w.atStage s (.ofSeconds c.refreshTimeoutSecs))⟩

/-- A repository that is not found is left alone. -/
theorem passed_of_error (h : sv.Serves order) {repo : Repo} {f : Failure}
    (hfound : (headOf c scratch sv s repo w).1 = .error f) :
    Passed sv [(repo, .error f)] w ((refreshStage c scratch sv).rest s repo w).2 [] ∧
      ((refreshStage c scratch sv).rest s repo w).1.isSome := by
  obtain ⟨reason, hbody⟩ := Services.refreshRepo_of_error hfound
  have hrun : ((refreshStage c scratch sv).rest s repo w).1.isSome ∧
      ((refreshStage c scratch sv).rest s repo w).2 = (headOf c scratch sv s repo w).2 :=
    World.step_of_failed hbody
  obtain ⟨hdata, hnamed⟩ := headOf_frame h c scratch s repo w
  rw [hrun.2]
  have hnothing : Passed sv [] w (headOf c scratch sv s repo w).2 [] := .nil hdata hnamed
  exact ⟨⟨hnothing.getRepo_eq, hnothing.repoIds_eq, hnothing.linters_eq, hnothing.findings_eq,
    hnothing.asked⟩, hrun.1⟩

/-- A repository that is found is stored with its commit, and its tasks are
added. -/
theorem passed_of_ok (h : sv.Serves order) {repo : Repo} (hmem : repo.source.id ∈ w.data.repoIds)
    {commit : String} (hfound : (headOf c scratch sv s repo w).1 = .ok commit)
    (honTime : (refreshStage c scratch sv).isOnTime s repo w = true) {last : Nat}
    (hfresh : NamesFresh sv.taskName w.data w.named last)
    (hlast : ((refreshStage c scratch sv).rest s repo w).2.named ≤ last) :
    (∃ new, Passed sv [(repo, .ok commit)] w ((refreshStage c scratch sv).rest s repo w).2 new) ∧
      ((refreshStage c scratch sv).rest s repo w).1 = none := by
  obtain ⟨hdata, hnamed⟩ := headOf_frame h c scratch s repo w
  let stored : World Store ε :=
    { (headOf c scratch sv s repo w).2 with data := w.data.putRepo (repo.resolve commit) }
  have hbody : sv.refreshRepo scratch (w.stageScope s (.ofSeconds c.refreshTimeoutSecs)) repo
      (w.atStage s (.ofSeconds c.refreshTimeoutSecs)) =
        (.produced [repo.resolve commit], stored) := by
    rw [Services.refreshRepo_of_ok h hfound (TimedChain.live_of_isOnTime honTime)]
    simp only [stored, ← hdata]
    rfl
  obtain ⟨hrun, honTime⟩ : (refreshStage c scratch sv).rest s repo w =
      (scheduleStage c sv).rest s (repo.resolve commit) stored ∧
        (scheduleStage c sv).isOnTime s (repo.resolve commit) stored = true :=
    TimedChain.one_of_isOnTime honTime hbody
  rw [hrun] at hlast ⊢
  have hstored : Asked sv [] w stored [] := .nil rfl hnamed
  obtain ⟨hreport, ⟨tasks, hleft⟩, new, hasked⟩ :=
    scheduled h honTime (hstored.namesFresh hfresh) hlast
  refine ⟨⟨new, ?_, ?_, ?_, ?_, ?_⟩, hreport⟩
  · intro id
    rw [hleft]
    exact Fetched.getRepo_putRepo_resolve w.data repo commit id
  · rw [hleft]
    exact Store.repoIds_putRepo hmem
  · rw [hleft]
    rfl
  · rw [hleft]
    rfl
  · rw [Fetched.pairs_ok]
    exact hstored.trans hasked

/-- One repository, found or not. -/
theorem passed_one (h : sv.Serves order) {repo : Repo} (hmem : repo.source.id ∈ w.data.repoIds)
    (honTime : (refreshStage c scratch sv).isOnTime s repo w = true) {last : Nat}
    (hfresh : NamesFresh sv.taskName w.data w.named last)
    (hlast : ((refreshStage c scratch sv).rest s repo w).2.named ≤ last) :
    (∃ new, Passed sv [(repo, (headOf c scratch sv s repo w).1)] w
        ((refreshStage c scratch sv).rest s repo w).2 new) ∧
      (((refreshStage c scratch sv).rest s repo w).1 = none ↔
        ∃ commit, (headOf c scratch sv s repo w).1 = .ok commit) := by
  cases hfound : (headOf c scratch sv s repo w).1 with
  | error f =>
    obtain ⟨hpassed, hfailed⟩ := passed_of_error h hfound
    exact ⟨⟨[], hpassed⟩, by simp [Option.ne_none_iff_isSome.mpr hfailed]⟩
  | ok commit =>
    obtain ⟨hpassed, hdone⟩ := passed_of_ok h hmem hfound honTime hfresh hlast
    exact ⟨hpassed, by simp [hdone]⟩

/-- Some repositories, one after the other. -/
theorem passed_through (h : sv.Serves order) {repos : List Repo}
    (hmem : ∀ repo ∈ repos, repo.source.id ∈ w.data.repoIds)
    (honTime : (refreshStage c scratch sv).areOnTime s repos w = true) {last : Nat}
    (hfresh : NamesFresh sv.taskName w.data w.named last)
    (hlast : (World.through (refreshStage c scratch sv).rest s repos w).2.named ≤ last) :
    (∃ new, Passed sv (fetched c scratch sv s repos w) w
        (World.through (refreshStage c scratch sv).rest s repos w).2 new) ∧
      ((∀ r ∈ (World.through (refreshStage c scratch sv).rest s repos w).1, r = none) ↔
        ∀ f ∈ fetched c scratch sv s repos w, ∃ commit, f.2 = .ok commit) := by
  induction repos generalizing w with
  | nil => exact ⟨⟨[], .nil rfl (Nat.le_refl _)⟩, by simp [World.through, fetched]⟩
  | cons repo repos ih =>
    rw [TimedChain.areOnTime, Bool.and_eq_true] at honTime
    obtain ⟨honOne, honRest⟩ := honTime
    -- No stage takes names back, so the names that the first repository uses up lie
    -- below the bound as well.
    have hnames := (keepsNames_refreshStage h c scratch).through s repos
      ((refreshStage c scratch sv).rest s repo w).2
    obtain ⟨⟨new, hone⟩, hreport⟩ := passed_one h (hmem repo List.mem_cons_self) honOne hfresh
      (Nat.le_trans hnames hlast)
    obtain ⟨⟨later, hrest⟩, hreports⟩ := ih
      (fun r hr => hone.repoIds_eq ▸ hmem r (List.mem_cons_of_mem _ hr)) honRest
      (hone.asked.namesFresh hfresh) hlast
    refine ⟨⟨_, hone.trans hrest⟩, ?_⟩
    simp only [World.through, fetched, List.forall_mem_cons, hreport, hreports]

/-- What a pass fetches: the repositories that are listed, each with what comes of
fetching it when its turn is. -/
def fetches (c : SchedulerConfig) (scratch : String) (sv : Services Store ε)
    (order : List Repo → List Repo) (s : Scope) (w : World Store ε) : List Fetched :=
  fetched c scratch sv s (order w.data.listRepos) (w.atStage s (.ofSeconds c.fetchTimeoutSecs))

/-- Each repository is fetched once, in its turn. -/
theorem map_fst_fetched (repos : List Repo) (w : World Store ε) :
    (fetched c scratch sv s repos w).map Prod.fst = repos := by
  induction repos generalizing w with
  | nil => rfl
  | cons repo repos ih => exact congrArg (repo :: ·) (ih _)

theorem time_listRepos (sv : Services Store ε) (s : Scope) (w : World Store ε) :
    (sv.listRepos s () w).2 = w := by
  unfold Services.listRepos
  split <;> rfl

/-- A pass in which nothing goes wrong but the fetching of repositories. -/
structure Undisturbed (order : List Repo → List Repo) (c : SchedulerConfig) (scratch : String)
    (sv : Services Store ε) (s : Scope) (w : World Store ε) : Prop where
  serves : sv.Serves order
  order_perm : (order w.data.listRepos).Perm w.data.listRepos
  isOnTime : (timed c scratch sv).isOnTime s () w = true
  namesFresh : NamesFresh sv.taskName w.data w.named (pass c scratch sv s () w).2.named

/-- A pass, and its report. -/
theorem pass_passed (h : Undisturbed order c scratch sv s w) :
    (∃ new, Passed sv (fetches c scratch sv order s w) w (pass c scratch sv s () w).2 new) ∧
      ((pass c scratch sv s () w).1 = none ↔
        ∀ f ∈ fetches c scratch sv order s w, ∃ commit, f.2 = .ok commit) := by
  obtain ⟨hserves, horder, honTime, hfresh⟩ := h
  have hlive := TimedChain.live_of_isOnTime honTime
  rw [time_listRepos] at hlive
  have hbody : sv.listRepos (w.stageScope s (.ofSeconds c.fetchTimeoutSecs)) ()
      (w.atStage s (.ofSeconds c.fetchTimeoutSecs)) =
        (.produced (order w.data.listRepos), w.atStage s (.ofSeconds c.fetchTimeoutSecs)) := by
    unfold Services.listRepos
    rw [World.look_of_live hlive, hserves.keeper_eq]
    rfl
  have hrun : pass c scratch sv s () w = _ := World.step_of_produced hbody
  have hmem : ∀ repo ∈ order w.data.listRepos, repo.source.id ∈ w.data.repoIds := fun repo hrepo =>
    w.data.listRepos_ids.mem_iff.mp (List.mem_map_of_mem (horder.mem_iff.mp hrepo))
  rw [hrun] at hfresh ⊢
  obtain ⟨⟨new, hpassed⟩, hreports⟩ := passed_through
    (w := w.atStage s (.ofSeconds c.fetchTimeoutSecs)) hserves hmem
    (TimedChain.areOnTime_of_isOnTime honTime hbody) hfresh (Nat.le_refl _)
  have hstart : Passed sv [] w (w.atStage s (.ofSeconds c.fetchTimeoutSecs)) [] :=
    .nil rfl (Nat.le_refl _)
  refine ⟨⟨new, hstart.trans hpassed⟩, ?_⟩
  rw [Chain.reportOf_eq_none_iff]
  exact ⟨fun hall => hreports.mp hall.2, fun hall => ⟨rfl, hreports.mpr hall⟩⟩

/-! ## What a pass leaves -/

/-- What a pass over some repositories has left, and what it has not touched. -/
structure Left (fs : List Fetched) (before after : Store) (new : List TaskRow) : Prop where
  found : ∀ repo commit, (repo, .ok commit) ∈ fs →
    after.getRepo repo.source.id = some (repo.resolve commit)
  not_found : ∀ repo f, (repo, .error f) ∈ fs → after.getRepo repo.source.id = some repo
  repoIds_eq : after.repoIds = before.repoIds
  linters_eq : after.linters = before.linters
  findings_eq : after.findings = before.findings
  tasks_eq : after.tasks = before.tasks ++ new
  nodup : (new.map TaskRow.fingerprint).Nodup
  mem_iff : ∀ p, p ∈ new.map TaskRow.fingerprint ↔ ¬before.Knows p ∧
    ∃ repo commit, (repo, .ok commit) ∈ fs ∧
      ∃ image ∈ Linter.images before.listLinters, p = ⟨commit, image.id, image.digest⟩
  rows : ∀ u ∈ new, u.status = .pending ∧ u.lockedAt = none ∧
    ∃ repo commit, (repo, .ok commit) ∈ fs ∧
      ∃ image ∈ Linter.images before.listLinters, ∃ name now, u = TaskRow.fresh
        (Task.fresh name image ⟨repo.source.id, repo.source.url, commit⟩ now) now

/-- Repositories that are listed are told apart by their names. -/
theorem fetched_ids_nodup {fs : List Fetched} {before : Store} (hunique : before.repoIds.Nodup)
    (hlisted : (fs.map Prod.fst).Perm before.listRepos) : (fs.map (·.1.source.id)).Nodup := by
  have hperm := (hlisted.map (·.source.id)).trans before.listRepos_ids
  rw [List.map_map] at hperm
  exact hperm.nodup_iff.mpr hunique

/-- What is left of a pass over all repositories, said of the store. -/
theorem Passed.left {sv : Services Store ε} {fs : List Fetched} {w w' : World Store ε}
    {new : List TaskRow} (h : Passed sv fs w w' new) (hunique : w.data.repoIds.Nodup)
    (hlisted : (fs.map Prod.fst).Perm w.data.listRepos) : Left fs w.data w'.data new where
  found repo commit hmem := by
    rw [h.getRepo_eq, Fetched.latest?_eq_some (fetched_ids_nodup hunique hlisted) hmem]
    rfl
  not_found repo f hmem := by
    have hnone : Fetched.latest? fs repo.source.id = none := by
      refine Fetched.latest?_eq_none fun other commit hother hid => ?_
      cases List.inj_on_of_nodup_map (fetched_ids_nodup hunique hlisted) hother hmem hid
    rw [h.getRepo_eq, hnone, Option.none_or]
    exact Store.getRepo_of_mem hunique (hlisted.mem_iff.mp (List.mem_map.mpr ⟨_, hmem, rfl⟩))
  repoIds_eq := h.repoIds_eq
  linters_eq := h.linters_eq
  findings_eq := h.findings_eq
  tasks_eq := h.asked.tasks_eq
  nodup := h.asked.nodup
  mem_iff p := by rw [h.asked.mem_iff, Fetched.exists_pair_iff]
  rows u hu := by
    obtain ⟨p, hp, i, now, -, -, rfl⟩ := h.asked.rows u hu
    obtain ⟨repo, commit, hmem, hrevision, himage⟩ := Fetched.mem_pairs.mp hp
    exact ⟨rfl, rfl, repo, commit, hmem, p.2, himage, sv.taskName i, now, by rw [hrevision]⟩

/-- A fingerprint of a commit that was found is stored, whatever became of other
repositories. -/
theorem Left.knows {fs : List Fetched} {before after : Store} {new : List TaskRow}
    (h : Left fs before after new) {repo : Repo} {commit : String} (hmem : (repo, .ok commit) ∈ fs)
    {image : LinterImage} (himage : image ∈ Linter.images before.listLinters) :
    after.Knows ⟨commit, image.id, image.digest⟩ := by
  rw [Store.knows_iff_mem, h.tasks_eq, List.map_append, List.mem_append]
  by_cases hknown : before.Knows ⟨commit, image.id, image.digest⟩
  · exact .inl (Store.knows_iff_mem.mp hknown)
  · exact .inr ((h.mem_iff _).mpr ⟨hknown, repo, commit, hmem, image, himage, rfl⟩)

/-- Once a pass has found some commits, one that finds no others changes
nothing, whatever became of the tasks in between. -/
theorem Passed.eq_of_same {sv : Services Store ε} {fs gs : List Fetched} {before after : Store}
    {w w' : World Store ε} {new later : List TaskRow} (hfirst : Left fs before after new)
    (h : Passed sv gs w w' later) (hunique : w.data.repoIds.Nodup)
    (hrepos : w.data.repos = after.repos) (hlinters : w.data.linters = before.linters)
    (hknown : ∀ f, after.Knows f → w.data.Knows f)
    (hsame : ∀ repo commit, (repo, .ok commit) ∈ gs →
      ∃ earlier, (earlier, .ok commit) ∈ fs ∧ earlier.source = repo.source) :
    w'.data = w.data := by
  have himages : w.data.listLinters = before.listLinters := Store.listLinters_congr hlinters
  have hprints : later.map TaskRow.fingerprint = [] := by
    refine List.eq_nil_iff_forall_not_mem.mpr fun f hf => ?_
    obtain ⟨hnew, hasked⟩ := (h.asked.mem_iff f).mp hf
    obtain ⟨repo, commit, hmem, image, himage, rfl⟩ := Fetched.exists_pair_iff.mp hasked
    obtain ⟨earlier, hearlier, -⟩ := hsame repo commit hmem
    exact hnew (hknown _ (hfirst.knows hearlier (himages ▸ himage)))
  have htasks : w'.data.tasks = w.data.tasks := by
    rw [h.asked.tasks_eq, List.map_eq_nil_iff.mp hprints, List.append_nil]
  have hget : ∀ id, w'.data.getRepo id = w.data.getRepo id := by
    intro id
    rw [h.getRepo_eq]
    cases hlatest : Fetched.latest? gs id with
    | none => rfl
    | some stored =>
      -- It is stored once more as the first pass has left it.
      obtain ⟨repo, commit, hmem, rfl, rfl⟩ := Fetched.mem_of_latest? hlatest
      obtain ⟨earlier, hearlier, hsource⟩ := hsame repo commit hmem
      have hfound := hfirst.found earlier commit hearlier
      have hstored : w.data.getRepo repo.source.id = after.getRepo repo.source.id := by
        simp only [Store.getRepo, hrepos]
      rw [hstored, ← hsource, hfound, Repo.resolve, Repo.resolve, hsource]
      rfl
  have hregister := Store.repos_ext hunique h.repoIds_eq hget
  calc w'.data = ⟨w'.data.repos, w'.data.linters, w'.data.tasks, w'.data.findings⟩ := rfl
    _ = ⟨w.data.repos, w.data.linters, w.data.tasks, w.data.findings⟩ := by
      rw [hregister, h.linters_eq, htasks, h.findings_eq]
    _ = w.data := rfl

/-- **A pass refreshes what it finds and adds the tasks that are missing**, in
whatever order the repositories come and whichever of them are not found; it
fails if and only if one is not found.  One that follows it and finds no other
commits changes nothing that is stored, whatever has become of the tasks in
between. -/
theorem pass_leaves (h : Undisturbed order c scratch sv s w) (hunique : w.data.repoIds.Nodup) :
    let report := (pass c scratch sv s () w).1
    let left := (pass c scratch sv s () w).2
    let fs := fetches c scratch sv order s w
    (fs.map Prod.fst).Perm w.data.listRepos ∧
      (∃ new, Left fs w.data left.data new) ∧
      (report.isSome ↔ ∃ repo f, (repo, .error f) ∈ fs) ∧
      (∀ repo commit, (repo, .ok commit) ∈ fs → ∀ image ∈ Linter.images w.data.listLinters,
        left.data.Knows ⟨commit, image.id, image.digest⟩) ∧
      ∀ (order' : List Repo → List Repo) (c' : SchedulerConfig) (scratch' : String)
        (sv' : Services Store ε) (s' : Scope) (w' : World Store ε) (calls : List StoreCall),
        Undisturbed order' c' scratch' sv' s' w' →
        (∀ call ∈ calls, call.isRegistry = false) → w'.data = left.data.after calls →
        (∀ repo commit, (repo, .ok commit) ∈ fetches c' scratch' sv' order' s' w' →
          ∃ earlier, (earlier, .ok commit) ∈ fs ∧ earlier.source = repo.source) →
        (pass c' scratch' sv' s' () w').2.data = w'.data := by
  intro report left fs
  obtain ⟨⟨new, hpassed⟩, hreport⟩ := pass_passed h
  have hlisted : (fs.map Prod.fst).Perm w.data.listRepos := by
    rw [show fs.map Prod.fst = order w.data.listRepos from map_fst_fetched _ _]
    exact h.order_perm
  have hleft : Left fs w.data left.data new := hpassed.left hunique hlisted
  refine ⟨hlisted, ⟨new, hleft⟩, ?_, fun repo commit hmem image himage => hleft.knows hmem himage,
    ?_⟩
  · rw [← Option.ne_none_iff_isSome, ne_eq, hreport]
    simp only [not_forall]
    constructor
    · rintro ⟨⟨repo, found⟩, hmem, hnot⟩
      cases found with
      | error f => exact ⟨repo, f, hmem⟩
      | ok commit => exact absurd ⟨commit, rfl⟩ hnot
    · rintro ⟨repo, f, hmem⟩
      exact ⟨(repo, .error f), hmem, by simp⟩
  · intro order' c' scratch' sv' s' w' calls h' hcalls hdata hsame
    obtain ⟨⟨later, hlater⟩, -⟩ := pass_passed h'
    obtain ⟨hrepos, hlinters⟩ := Store.registry_after hcalls left.data
    refine hlater.eq_of_same hleft ?_ (hdata ▸ hrepos) ?_ (fun f hf => hdata ▸ hf.after calls) hsame
    · rw [hdata, Store.repoIds, hrepos, ← Store.repoIds, hleft.repoIds_eq]
      exact hunique
    · rw [hdata, hlinters, hleft.linters_eq]

end Stages

/-! ## Two repositories with one head -/

/-- A repository. -/
def original : Repo := .unresolved ⟨"a", "https://here", "main"⟩

/-- A mirror of it. -/
def mirror : Repo := .unresolved ⟨"b", "https://mirror", "main"⟩

def gone : Repo := .unresolved ⟨"c", "https://gone", "main"⟩

/-- Services of a host that reaches the first two; the store lists the
repositories as given. -/
def reaching (repos : List Repo) : Services Store Unit :=
  { Services.isolated (Store.keeperIn fun _ => repos) "socket" .epoch with
    fetch := fun _ url _ _ w =>
      if url = "https://gone" then (.error .cancelled, w) else (.ok "c0ffee", w) }

theorem serves_reaching (repos : List Repo) : (reaching repos).Serves fun _ => repos where
  keeper_eq := rfl
  alone := by
    refine ⟨fun s url ref dir w => ?_, fun _ _ _ _ _ => rfl, fun _ _ => rfl⟩
    simp only [reaching]
    split <;> rfl
  fetch_named s url ref dir w := by
    simp only [reaching]
    split <;> exact Nat.le_refl _

/-- The world of a scheduler that watches all three, and has one linter. -/
def watching : World Store Unit :=
  ⟨.start, .empty,
    Store.empty.after [.putRepo original, .putRepo mirror, .putRepo gone,
      .putLinter (.resolved ⟨"l", "https://linter", "main"⟩ ⟨"l", "image", "digest"⟩)], 0, ()⟩

/-- All three as they are listed, in the reverse order of their names. -/
def unfetched : List Repo := [gone, mirror, original]

/-- The same once the first two have been found. -/
def refetched : List Repo := [gone, mirror.resolve "c0ffee", original.resolve "c0ffee"]

/-- One task is added for both, by a pass that fails; the next one changes
nothing. -/
theorem pass_leaves_mirrored :
    let first := pass {} "/scratch" (reaching unfetched) ⟨[0], none⟩ () watching
    let second := pass {} "/scratch" (reaching refetched) ⟨[0], none⟩ () first.2
    first.1.isSome ∧ first.2.data.tasks.map (·.repo.id) = ["b"] ∧
      second.2.data = first.2.data := by
  intro first second
  have hlisted : watching.data.listRepos = unfetched.reverse := by
    rw [Store.listRepos, Store.repoRows, List.mergeSort_of_pairwise (by decide +kernel)]
    rfl
  have hlisted' : first.2.data.listRepos = refetched.reverse := by
    rw [Store.listRepos, Store.repoRows, List.mergeSort_of_pairwise (by decide +kernel)]
    decide +kernel
  have hfirst : Undisturbed (fun _ => unfetched) {} "/scratch" (reaching unfetched) ⟨[0], none⟩
      watching :=
    ⟨serves_reaching _, hlisted ▸ (List.reverse_perm _).symm, by decide +kernel,
      ⟨by decide +kernel, by decide +kernel⟩⟩
  have hperm : refetched.Perm first.2.data.listRepos := by
    rw [hlisted']
    exact (List.reverse_perm _).symm
  have hsecond : Undisturbed (fun _ => refetched) {} "/scratch" (reaching refetched) ⟨[0], none⟩
      first.2 :=
    ⟨serves_reaching _, hperm, by decide +kernel, ⟨by decide +kernel, by decide +kernel⟩⟩
  have hfound : ∀ f ∈ fetches {} "/scratch" (reaching refetched) (fun _ => refetched) ⟨[0], none⟩
      first.2, f.2.toOption = none ∨ f = (mirror.resolve "c0ffee", .ok "c0ffee") ∨
        f = (original.resolve "c0ffee", .ok "c0ffee") := by decide +kernel
  have hunique : watching.data.repoIds.Nodup := by decide +kernel
  have hagain := (pass_leaves hfirst hunique).2.2.2.2 _ _ _ _ _ _ [] hsecond (by simp)
  rw [Store.after_nil] at hagain
  have hbefore : first.2.data =
      (pass {} "/scratch" (reaching unfetched) ⟨[0], none⟩ () watching).2.data := by
    simp only [first]
  refine ⟨by decide +kernel, by decide +kernel, ?_⟩
  simp only [second]
  rw [hagain hbefore ?_]
  intro repo commit hmem
  rcases hfound _ hmem with hnone | heq | heq
  · cases hnone
  · cases heq
    exact ⟨mirror, by decide +kernel, rfl⟩
  · cases heq
    exact ⟨original, by decide +kernel, rfl⟩

end Scheduler

end LintPatrol
