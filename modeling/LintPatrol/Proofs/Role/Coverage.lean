import LintPatrol.Proofs.Role.Pass

/-!
# LintPatrol.Proofs.Role.Coverage

Which tasks there are after a pass that fetches all repositories and whose
requests for tasks are all answered as added or as a duplicate.  Workers may be
at work on the store meanwhile, and people may judge findings, before and after
every call of the pass and while it fetches (`Services.Attended`); of a task they
change neither what is run nor on what, and they leave the register alone
(`Store.work_after`).

* `Store.Extended` says which tasks were asked for between two stores: all of them
  are known in the later one, and no others were added.
* `Swept` says it of a pass over some repositories, with the heads found there; a
  pass over two lists is the pass over the one and then over the other
  (`Swept.trans`), so that a single repository is enough (`swept_one`).

After the pass every repository has a task for every linter that can be run, on
the head that was found there.  A task is known by its commit and its linter, so
it need not be the repository's own: `Scheduler.pass_covers` says whose it may be,
and `Scheduler.mirror_without_own_task` is a pass where it is another one's.
-/

namespace LintPatrol

open Time

/-! ## Others at work -/

/-- Is the call one of a worker, or of somebody who judges findings? -/
def StoreCall.isWork : StoreCall → Bool
  | tryTake _ _ | set _ _ _ | moderate _ _ _ _ _ => true
  | _ => false

/-- What a task runs: a linter, on a revision. -/
def TaskRow.pair (t : TaskRow) : RepoRevision × LinterImage := (t.repo, t.linter)

namespace Store

variable {s s' s'' : Store}

/-- What the stored tasks run. -/
def pairs (s : Store) : List (RepoRevision × LinterImage) := s.tasks.map TaskRow.pair

/-- What is known is known by what the tasks run. -/
theorem knows_iff_pair {f : Fingerprint} :
    s.Knows f ↔ ∃ p ∈ s.pairs, Fingerprint.ofPair p.1 p.2 = f := by
  simp only [pairs, List.mem_map, exists_exists_and_eq_and]
  rfl

/-- Work on the store changes neither what tasks run nor the register. -/
theorem work_perform {c : StoreCall} (hc : c.isWork = true) (s : Store) :
    (c.perform s).2.pairs = s.pairs ∧ (c.perform s).2.repos = s.repos ∧
      (c.perform s).2.linters = s.linters := by
  have hregister : c.isRegistry = false := by
    cases c <;> first | rfl | cases hc
  refine ⟨?_, registry_perform hregister s⟩
  have hchange := s.change_perform c
  generalize c.perform s = answered at hchange ⊢
  obtain ⟨answer, left⟩ := answered
  cases hchange with
  | added => cases hc
  | taken horizon now u =>
    exact map_updateTask s u.id TaskRow.pair fun t => (rfl : (t.lease now).pair = t.pair)
  | recorded held r completedAt =>
    exact map_updateTask s held.id TaskRow.pair fun t =>
      (rfl : (t.finish r completedAt).pair = t.pair)
  | judged => rfl
  | registered c hc' =>
    rw [hregister] at hc'
    cases hc'
  | refused => rfl

/-- However much work is done, it changes neither. -/
theorem work_after {cs : List StoreCall} (hcs : ∀ c ∈ cs, c.isWork = true) (s : Store) :
    (s.after cs).pairs = s.pairs ∧ (s.after cs).repos = s.repos ∧
      (s.after cs).linters = s.linters := by
  induction cs generalizing s with
  | nil => exact ⟨rfl, rfl, rfl⟩
  | cons c cs ih =>
    obtain ⟨hpairs, hrepos, hlinters⟩ := work_perform (hcs c List.mem_cons_self) s
    obtain ⟨hpairs', hrepos', hlinters'⟩ :=
      ih (fun d hd => hcs d (List.mem_cons_of_mem _ hd)) (c.perform s).2
    exact ⟨hpairs'.trans hpairs, hrepos'.trans hrepos, hlinters'.trans hlinters⟩

/-- Others have worked on the store, and nothing else was done to it. -/
def Worked (s s' : Store) : Prop :=
  ∃ calls, (∀ c ∈ calls, c.isWork = true) ∧ s' = s.after calls

theorem Worked.refl (s : Store) : s.Worked s := ⟨[], by simp, rfl⟩

theorem Worked.pairs_eq (h : s.Worked s') : s'.pairs = s.pairs := by
  obtain ⟨calls, hwork, rfl⟩ := h
  exact (work_after hwork s).1

/-- The same repositories and linters are registered, with the same details. -/
structure SameRegister (s s' : Store) : Prop where
  repos_eq : s'.repos = s.repos
  linters_eq : s'.linters = s.linters

/-- The others leave the register alone. -/
theorem Worked.sameRegister (h : s.Worked s') : s.SameRegister s' := by
  obtain ⟨calls, hwork, rfl⟩ := h
  exact ⟨(work_after hwork s).2.1, (work_after hwork s).2.2⟩

/-- Adding a task leaves the register alone, whatever the answer is. -/
theorem sameRegister_tryAdd (s : Store) (t : Task) (now : Instant) :
    s.SameRegister (s.tryAdd t now).2 := by
  rcases s.tryAdd_cases t now with ⟨-, heq⟩ | ⟨-, -, heq⟩ | ⟨-, -, heq⟩ <;>
  exact ⟨by rw [heq], by rw [heq]⟩

namespace SameRegister

theorem refl (s : Store) : s.SameRegister s := ⟨rfl, rfl⟩

theorem trans (h : s.SameRegister s') (h' : s'.SameRegister s'') : s.SameRegister s'' :=
  ⟨h'.repos_eq.trans h.repos_eq, h'.linters_eq.trans h.linters_eq⟩

theorem getRepo_eq (h : s.SameRegister s') (id : String) : s'.getRepo id = s.getRepo id := by
  simp only [getRepo, h.repos_eq]

theorem listRepos_eq (h : s.SameRegister s') : s'.listRepos = s.listRepos := by
  simp only [listRepos, repoRows, h.repos_eq]

theorem listLinters_eq (h : s.SameRegister s') : s'.listLinters = s.listLinters :=
  listLinters_congr h.linters_eq

end SameRegister

/-! ## Tasks that were asked for -/

/-- Between two stores tasks were asked for: behind the tasks there were stand only
some that were asked for, and all that were asked for are known. -/
structure Extended (asked : List (RepoRevision × LinterImage)) (s s' : Store) : Prop where
  pairs_eq : ∃ new, s'.pairs = s.pairs ++ new ∧ ∀ p ∈ new, p ∈ asked
  known : ∀ p ∈ asked, s'.Knows (.ofPair p.1 p.2)

namespace Extended

variable {asked more : List (RepoRevision × LinterImage)}

/-- Nothing was asked for. -/
theorem nil (h : s'.pairs = s.pairs) : Extended [] s s' where
  pairs_eq := ⟨[], by rw [h, List.append_nil], by simp⟩
  known := by simp

/-- What was known is known. -/
theorem knows (h : Extended asked s s') {f : Fingerprint} (hf : s.Knows f) : s'.Knows f := by
  obtain ⟨new, hpairs, -⟩ := h.pairs_eq
  obtain ⟨p, hp, hprint⟩ := knows_iff_pair.mp hf
  exact knows_iff_pair.mpr ⟨p, by rw [hpairs]; exact List.mem_append_left _ hp, hprint⟩

/-- What was asked for first, and then what was asked for later. -/
theorem trans (h : Extended asked s s') (h' : Extended more s' s'') :
    Extended (asked ++ more) s s'' where
  pairs_eq := by
    obtain ⟨new, hpairs, hnew⟩ := h.pairs_eq
    obtain ⟨later, hpairs', hlater⟩ := h'.pairs_eq
    refine ⟨new ++ later, by rw [hpairs', hpairs, List.append_assoc], fun p hp => ?_⟩
    rcases List.mem_append.mp hp with hp | hp
    · exact List.mem_append_left _ (hnew p hp)
    · exact List.mem_append_right _ (hlater p hp)
  known p hp := by
    rcases List.mem_append.mp hp with hp | hp
    · exact h'.knows (h.known p hp)
    · exact h'.known p hp

end Extended

/-- A task that is added, or is a duplicate, has been asked for. -/
theorem extended_tryAdd {t : Task} {now : Instant} {id : String} {outcome : Scheduled}
    (h : Services.scheduledOf id (s.tryAdd t now).1 = .ok outcome) :
    Extended [(t.repo, t.linter)] s (s.tryAdd t now).2 := by
  have hprint : t.fingerprint = .ofPair t.repo t.linter := rfl
  rcases s.tryAdd_cases t now with ⟨hknown, heq⟩ | ⟨-, -, heq⟩ | ⟨-, -, heq⟩
  · rw [heq]
    exact ⟨⟨[], by simp⟩, by simpa [hprint] using hknown⟩
  · rw [heq] at h
    cases h
  · rw [heq]
    refine ⟨⟨[(t.repo, t.linter)], List.map_append, by simp⟩, fun p hp => ?_⟩
    rw [List.mem_singleton.mp hp]
    exact ⟨_, List.mem_append_right _ (List.mem_singleton_self _), rfl⟩

end Store

/-! ## Requests and their answers -/

namespace Services

section Answers

variable {δ ε : Type}

/-- How requests for tasks on a revision are answered, as far as the scope lasts. -/
def answers (sv : Services δ ε) (s : Scope) (repo : RepoRevision) :
    List LinterImage → World δ ε → List (Except StoreError Scheduled)
  | [], _ => []
  | l :: ls, w =>
    if w.time.isExpired s then []
    else (sv.schedule repo l w).1 :: answers sv s repo ls (sv.schedule repo l w).2

/-- How the requests for the tasks of a repository are answered. -/
def repoAnswers (sv : Services δ ε) (s : Scope) (repo : Repo) (w : World δ ε) :
    List (Except StoreError Scheduled) :=
  match repo.revision?, w.look s sv.keeper.listLinters with
  | some revision, some (.ok linters) => sv.answers s revision (Linter.images linters) w
  | _, _ => []

end Answers

variable {ε : Type} {order : List Repo → List Repo} {sv : Services Store ε} {scratch : String}
  {s : Scope} {repo : Repo} {w w' : World Store ε}

/-- The services of a scheduler that shares the store with workers and with people
who judge findings.  A call that does not fail meets a store on which they have
worked since the last one, and before it returns they may have worked again; so they
may while a revision is fetched. -/
structure Attended (sv : Services Store ε) (order : List Repo → List Repo) : Prop where
  -- What is done to the store around a call that only reads is left to the next one that writes.
  listRepos : ∀ s repos, sv.keeper.listRepos s = .ok repos →
    ∃ met, s.Worked met ∧ repos = order met.listRepos
  listLinters : ∀ s linters, sv.keeper.listLinters s = .ok linters →
    ∃ met, s.Worked met ∧ linters = met.listLinters
  putRepo : ∀ repo s, (sv.keeper.putRepo repo s).1 = .ok () →
    ∃ met, s.Worked met ∧ (met.putRepo repo).Worked (sv.keeper.putRepo repo s).2
  tryAdd : ∀ t now s, (∃ reason, (sv.keeper.tryAdd t now s).1 = .error (.database reason)) ∨
    ∃ met, s.Worked met ∧ (sv.keeper.tryAdd t now s).1 = (met.tryAdd t now).1 ∧
      (met.tryAdd t now).2.Worked (sv.keeper.tryAdd t now s).2
  fetch : ∀ s url ref dir (w : World Store ε), w.data.Worked (sv.fetch s url ref dir w).2.data

/-- While the head of a repository is looked for, the others work on the store. -/
theorem Attended.head (h : sv.Attended order) (scratch : String) (s : Scope) (repo : Repo)
    (w : World Store ε) : w.data.Worked (sv.head scratch s repo w).2.data := by
  unfold Services.head
  split
  · exact .refl _
  · next dir w' hopen =>
    rw [World.data_closeCheckout, ← (World.openCheckout_ok hopen).1]
    exact h.fetch s repo.source.url (.branch repo.source.branch) dir w'

/-- After a request that is answered as added or as a duplicate the task is known;
neither the request nor what others do around it changes the register. -/
theorem extended_schedule (h : sv.Attended order) {revision : RepoRevision} {image : LinterImage}
    {outcome : Scheduled} (hanswer : (sv.schedule revision image w).1 = .ok outcome) :
    Store.Extended [(revision, image)] w.data (sv.schedule revision image w).2.data ∧
      w.data.SameRegister (sv.schedule revision image w).2.data := by
  rw [schedule_answer] at hanswer ⊢
  rcases h.tryAdd (sv.wanted revision image w) (sv.clock w.time) w.data with
    ⟨reason, hfailed⟩ | ⟨met, hmet, hsame, hleft⟩
  · rw [hfailed] at hanswer
    cases hanswer
  · rw [hsame] at hanswer
    have hbefore : Store.Extended [] w.data met := .nil hmet.pairs_eq
    have hasked : Store.Extended [(revision, image)] met
        (met.tryAdd (sv.wanted revision image w) (sv.clock w.time)).2 :=
      Store.extended_tryAdd hanswer
    exact ⟨(hbefore.trans hasked).trans (.nil hleft.pairs_eq),
      (hmet.sameRegister.trans (met.sameRegister_tryAdd _ _)).trans hleft.sameRegister⟩

/-- Requests that are all made, and all answered so. -/
theorem extended_scheduleAll (h : sv.Attended order) {revision : RepoRevision}
    {images : List LinterImage} (hlasted : (sv.scheduleAll s revision images w).1 = true)
    (hanswers : ∀ a ∈ sv.answers s revision images w, ∃ outcome, a = .ok outcome) :
    Store.Extended (images.map (revision, ·)) w.data
        (sv.scheduleAll s revision images w).2.data ∧
      w.data.SameRegister (sv.scheduleAll s revision images w).2.data := by
  induction images generalizing w with
  | nil => exact ⟨.nil rfl, .refl _⟩
  | cons image images ih =>
    rw [scheduleAll] at hlasted ⊢
    rw [answers] at hanswers
    split at hlasted
    · cases hlasted
    · next hlive =>
      rw [if_neg hlive] at hanswers ⊢
      obtain ⟨⟨outcome, hone⟩, hmany⟩ := List.forall_mem_cons.mp hanswers
      obtain ⟨hasked, hregister⟩ := extended_schedule h hone
      obtain ⟨hrest, hlater⟩ := ih hlasted hmany
      exact ⟨hasked.trans hrest, hregister.trans hlater⟩

/-! ## Stages that succeed -/

/-- A refresh that succeeds has found a head, and stored the repository with it in
the store it met then. -/
theorem refreshRepo_produced (h : sv.Attended order) {items : List Repo}
    (hrun : sv.refreshRepo scratch s repo w = (.produced items, w')) :
    ∃ commit met, (sv.head scratch s repo w).1 = .ok commit ∧ items = [repo.resolve commit] ∧
      (sv.head scratch s repo w).2.data.Worked met ∧
      (met.putRepo (repo.resolve commit)).Worked w'.data := by
  unfold refreshRepo refreshed at hrun
  generalize sv.head scratch s repo w = answer at hrun ⊢
  obtain ⟨found, w₁⟩ := answer
  cases found with
  | error f => cases hrun
  | ok commit =>
    have hput := h.putRepo (repo.resolve commit) w₁.data
    by_cases hexpired : w₁.time.isExpired s = true
    · simp [World.call, hexpired] at hrun
    · obtain ⟨⟨answer, left⟩, hstored⟩ :
          ∃ stored, sv.keeper.putRepo (repo.resolve commit) w₁.data = stored := ⟨_, rfl⟩
      rw [hstored] at hput
      simp only [World.call, hexpired, Bool.false_eq_true, if_false, hstored] at hrun
      cases answer with
      | error e => cases hrun
      | ok =>
        obtain ⟨met, hmet, hleft⟩ := hput rfl
        cases hrun
        exact ⟨commit, met, rfl, rfl, hmet, hleft⟩

/-- If the tasks of a repository are scheduled without failure, all of them have
been asked for. -/
theorem scheduleRepo_produced (h : sv.Attended order) {commit : String} {items : List Unit}
    (hrun : sv.scheduleRepo s (repo.resolve commit) w = (.produced items, w')) :
    items = [] ∧
      sv.scheduleAll s ⟨repo.source.id, repo.source.url, commit⟩
        (Linter.images w.data.listLinters) w = (true, w') ∧
      sv.repoAnswers s (repo.resolve commit) w =
        sv.answers s ⟨repo.source.id, repo.source.url, commit⟩
          (Linter.images w.data.listLinters) w := by
  have hlook : ∀ linters, w.look s sv.keeper.listLinters = some (.ok linters) →
      linters = w.data.listLinters := by
    intro linters hlisted
    unfold World.look at hlisted
    split at hlisted
    · cases hlisted
    · obtain ⟨met, hmet, heq⟩ := h.listLinters w.data linters (Option.some.inj hlisted)
      rw [heq, hmet.sameRegister.listLinters_eq]
  simp only [scheduleRepo, repoAnswers, Repo.resolve, Repo.revision?] at hrun ⊢
  generalize w.look s sv.keeper.listLinters = listed at hlook hrun ⊢
  cases listed with
  | none => cases hrun
  | some answer =>
    cases answer with
    | error e => cases hrun
    | ok linters =>
      obtain rfl := hlook linters rfl
      simp only at hrun ⊢
      generalize sv.scheduleAll s _ _ w = made at hrun ⊢
      obtain ⟨lasted, left⟩ := made
      cases lasted with
      | true =>
        cases hrun
        exact ⟨rfl, rfl, trivial⟩
      | false => cases hrun

end Services

/-! ## Passes that succeed -/

namespace Scheduler

variable {ε : Type}

/-- What a pass over some repositories has made of the store. -/
structure Swept (fs : List Fetched) (s s' : Store) : Prop where
  getRepo_eq : ∀ id, s'.getRepo id = (Fetched.latest? fs id).or (s.getRepo id)
  linters_eq : s'.linters = s.linters
  extended : Store.Extended (Fetched.pairs fs (Linter.images s.listLinters)) s s'

/-- Two passes are one pass over all repositories. -/
theorem Swept.trans {fs gs : List Fetched} {s s' s'' : Store} (h : Swept fs s s')
    (h' : Swept gs s' s'') : Swept (fs ++ gs) s s'' where
  getRepo_eq id := by
    rw [h'.getRepo_eq, h.getRepo_eq, Fetched.latest?_append, Option.or_assoc]
  linters_eq := h'.linters_eq.trans h.linters_eq
  extended := by
    have hlisted : s'.listLinters = s.listLinters := Store.listLinters_congr h.linters_eq
    have hlater := h'.extended
    rw [hlisted] at hlater
    rw [Fetched.pairs_append]
    exact h.extended.trans hlater

/-- How the requests of the last stage are answered. -/
def stageAnswers (c : SchedulerConfig) (sv : Services Store ε) (s : Scope) (repo : Repo)
    (w : World Store ε) : List (Except StoreError Scheduled) :=
  sv.repoAnswers (w.stageScope s (.ofSeconds c.scheduleTimeoutSecs)) repo
    (w.atStage s (.ofSeconds c.scheduleTimeoutSecs))

/-- How the requests for the tasks of a repository are answered when its turn is. -/
def answersFor (c : SchedulerConfig) (scratch : String) (sv : Services Store ε) (s : Scope)
    (repo : Repo) (w : World Store ε) : List (Except StoreError Scheduled) :=
  match sv.refreshRepo scratch (w.stageScope s (.ofSeconds c.refreshTimeoutSecs)) repo
    (w.atStage s (.ofSeconds c.refreshTimeoutSecs)) with
  | (.produced [stored], met) => stageAnswers c sv s stored met
  | _ => []

/-- How they are answered for some repositories, one after the other. -/
def answersThrough (c : SchedulerConfig) (scratch : String) (sv : Services Store ε) (s : Scope) :
    List Repo → World Store ε → List (Except StoreError Scheduled)
  | [], _ => []
  | repo :: repos, w =>
    answersFor c scratch sv s repo w ++
      answersThrough c scratch sv s repos ((refreshStage c scratch sv).rest s repo w).2

/-- How all requests of a pass are answered. -/
def answers (c : SchedulerConfig) (scratch : String) (sv : Services Store ε)
    (order : List Repo → List Repo) (s : Scope) (w : World Store ε) :
    List (Except StoreError Scheduled) :=
  answersThrough c scratch sv s (order w.data.listRepos)
    (w.atStage s (.ofSeconds c.fetchTimeoutSecs))

section Stages

variable {order : List Repo → List Repo} {c : SchedulerConfig} {scratch : String}
  {sv : Services Store ε} {s : Scope} {w : World Store ε}

/-- If nothing is reported of a repository that was stored with its commit, all its
tasks have been asked for, and the register was left alone. -/
theorem extended_scheduleStage (h : sv.Attended order) {repo : Repo} {commit : String}
    (hreport : ((scheduleStage c sv).rest s (repo.resolve commit) w).1 = none)
    (hanswers : ∀ a ∈ stageAnswers c sv s (repo.resolve commit) w, ∃ outcome, a = .ok outcome) :
    Store.Extended (Fetched.pairs [(repo, .ok commit)] (Linter.images w.data.listLinters)) w.data
        ((scheduleStage c sv).rest s (repo.resolve commit) w).2.data ∧
      w.data.SameRegister ((scheduleStage c sv).rest s (repo.resolve commit) w).2.data := by
  obtain ⟨units, left, hbody, -, hend⟩ := World.exists_produced_of_step_eq_none hreport
  obtain ⟨rfl, hall, heq⟩ := Services.scheduleRepo_produced h hbody
  have hdata : ((scheduleStage c sv).rest s (repo.resolve commit) w).2.data = left.data :=
    congrArg World.data hend
  rw [stageAnswers, heq] at hanswers
  have hasked := Services.extended_scheduleAll h (congrArg Prod.fst hall) hanswers
  rw [hall] at hasked
  rw [hdata, Fetched.pairs_ok]
  exact hasked

/-- A repository of which nothing is reported has been found, and all its tasks
have been asked for. -/
theorem swept_one (h : sv.Attended order) {repo : Repo}
    (hreport : ((refreshStage c scratch sv).rest s repo w).1 = none)
    (hanswers : ∀ a ∈ answersFor c scratch sv s repo w, ∃ outcome, a = .ok outcome) :
    ∃ commit, (headOf c scratch sv s repo w).1 = .ok commit ∧
      Swept [(repo, .ok commit)] w.data ((refreshStage c scratch sv).rest s repo w).2.data := by
  obtain ⟨items, w₁, hbody, hreports, hleft⟩ := World.exists_produced_of_step_eq_none hreport
  obtain ⟨commit, met, hfound, rfl, hmet, hstored⟩ := Services.refreshRepo_produced h hbody
  simp only [answersFor, hbody] at hanswers
  obtain ⟨hasked, hregister⟩ :=
    extended_scheduleStage h (hreports _ (List.mem_singleton_self _)) hanswers
  have hdata : ((refreshStage c scratch sv).rest s repo w).2.data =
      ((scheduleStage c sv).rest s (repo.resolve commit) w₁).2.data := congrArg World.data hleft
  -- The others have worked while the head was looked for and once more before the
  -- repository was stored: the store met there differs from the first one only by work.
  have hhead : w.data.Worked (sv.head scratch _ repo _).2.data :=
    h.head scratch (w.stageScope s (.ofSeconds c.refreshTimeoutSecs)) repo
      (w.atStage s (.ofSeconds c.refreshTimeoutSecs))
  have hmetRegister : w.data.SameRegister met := hhead.sameRegister.trans hmet.sameRegister
  have hlinters : w₁.data.linters = w.data.linters :=
    hstored.sameRegister.linters_eq.trans hmetRegister.linters_eq
  have hpairs : w₁.data.pairs = w.data.pairs :=
    hstored.pairs_eq.trans (hmet.pairs_eq.trans hhead.pairs_eq)
  refine ⟨commit, hfound, fun id => ?_, ?_, ?_⟩
  · rw [hdata, hregister.getRepo_eq, hstored.sameRegister.getRepo_eq,
      Fetched.getRepo_putRepo_resolve, hmetRegister.getRepo_eq]
  · rw [hdata, hregister.linters_eq, hlinters]
  · have hlisted : w₁.data.listLinters = w.data.listLinters := Store.listLinters_congr hlinters
    have hstart : Store.Extended [] w.data w₁.data := .nil hpairs
    rw [hdata, ← hlisted]
    exact hstart.trans hasked

/-- Some repositories, one after the other. -/
theorem swept_through (h : sv.Attended order) {repos : List Repo}
    (hreports : ∀ r ∈ (World.through (refreshStage c scratch sv).rest s repos w).1, r = none)
    (hanswers : ∀ a ∈ answersThrough c scratch sv s repos w, ∃ outcome, a = .ok outcome) :
    (∀ f ∈ fetched c scratch sv s repos w, ∃ commit, f.2 = .ok commit) ∧
      Swept (fetched c scratch sv s repos w) w.data
        (World.through (refreshStage c scratch sv).rest s repos w).2.data := by
  induction repos generalizing w with
  | nil => exact ⟨by simp [fetched], ⟨fun id => rfl, rfl, .nil rfl⟩⟩
  | cons repo repos ih =>
    obtain ⟨hreport, hreports⟩ := List.forall_mem_cons.mp hreports
    rw [answersThrough, List.forall_mem_append] at hanswers
    obtain ⟨commit, hfound, hone⟩ := swept_one h hreport hanswers.1
    obtain ⟨hall, hrest⟩ := ih hreports hanswers.2
    rw [fetched, hfound]
    exact ⟨List.forall_mem_cons.mpr ⟨⟨commit, rfl⟩, hall⟩, hone.trans hrest⟩

/-- A pass that reports nothing has found all repositories and asked for all
tasks. -/
theorem pass_swept (h : sv.Attended order) (hreport : (pass c scratch sv s () w).1 = none)
    (hanswers : ∀ a ∈ answers c scratch sv order s w, ∃ outcome, a = .ok outcome) :
    (∀ f ∈ fetches c scratch sv order s w, ∃ commit, f.2 = .ok commit) ∧
      Swept (fetches c scratch sv order s w) w.data (pass c scratch sv s () w).2.data := by
  obtain ⟨repos, met, hbody, hreports, hleft⟩ := World.exists_produced_of_step_eq_none hreport
  obtain ⟨rfl, rfl⟩ : repos = order w.data.listRepos ∧
      met = w.atStage s (.ofSeconds c.fetchTimeoutSecs) := by
    unfold Services.listRepos World.look at hbody
    split at hbody
    · cases hbody
    · cases hbody
    · next listed heq =>
      split at heq
      · cases heq
      · obtain ⟨seen, hseen, rfl⟩ := h.listRepos w.data listed (Option.some.inj heq)
        cases hbody
        exact ⟨by rw [hseen.sameRegister.listRepos_eq], rfl⟩
  have hdata := congrArg World.data hleft
  rw [show (pass c scratch sv s () w).2.data = _ from hdata]
  exact swept_through h hreports hanswers

/-! ## Whose task it is -/

/-- A listed linter and its image have one name. -/
theorem image_id_of_listed {s : Store} {linter : Linter} (h : linter ∈ s.listLinters)
    {image : LinterImage} (himage : linter.image? = some image) : image.id = linter.source.id := by
  obtain ⟨row, -, rfl⟩ := List.mem_map.mp h
  unfold LinterRow.read at himage ⊢
  split at himage
  · cases himage
    rfl
  · cases himage

/-- **After a pass that reports nothing every repository has a task for every linter
that can be run**, on the head that was found, if all requests for tasks are
answered as added or as a duplicate.  The task carries the name of the repository,
unless such a task was stored before the pass, or another repository has the same
head. -/
theorem pass_covers (h : sv.Attended order)
    (hlisted : (order w.data.listRepos).Perm w.data.listRepos) (hunique : w.data.repoIds.Nodup)
    (hreport : (pass c scratch sv s () w).1 = none)
    (hanswers : ∀ a ∈ answers c scratch sv order s w, ∃ outcome, a = .ok outcome) :
    let left := (pass c scratch sv s () w).2.data
    ∀ repo ∈ w.data.listRepos, ∃ commit, (repo, .ok commit) ∈ fetches c scratch sv order s w ∧
      left.getRepo repo.source.id = some (repo.resolve commit) ∧
      ∀ linter ∈ w.data.listLinters, ∀ image, linter.image? = some image →
        ∃ t ∈ left.tasks, t.repo.commit = commit ∧ t.linter.id = linter.source.id ∧
          t.linter.digest = image.digest ∧
          (t.repo.id = repo.source.id ∨ (∃ u ∈ w.data.tasks, u.pair = t.pair) ∨
            ∃ other ∈ w.data.listRepos, other.source.id ≠ repo.source.id ∧
              left.getRepo other.source.id = some (other.resolve commit) ∧
              t.repo.id = other.source.id) := by
  intro left tracked htracked
  obtain ⟨hall, hswept⟩ := pass_swept h hreport hanswers
  have hfetched : ((fetches c scratch sv order s w).map Prod.fst).Perm w.data.listRepos := by
    rw [show (fetches c scratch sv order s w).map Prod.fst = order w.data.listRepos
      from map_fst_fetched _ _]
    exact hlisted
  have hhead : ∀ other commit, (other, .ok commit) ∈ fetches c scratch sv order s w →
      left.getRepo other.source.id = some (other.resolve commit) := fun other commit hmem => by
    rw [hswept.getRepo_eq, Fetched.latest?_eq_some (fetched_ids_nodup hunique hfetched) hmem]
    rfl
  obtain ⟨⟨repo, found⟩, hmem, rfl : repo = tracked⟩ :=
    List.mem_map.mp (hfetched.mem_iff.mpr htracked)
  obtain ⟨commit, rfl⟩ := hall _ hmem
  refine ⟨commit, hmem, hhead repo commit hmem, fun linter hlinter image himage => ?_⟩
  have hasked : (⟨repo.source.id, repo.source.url, commit⟩, image) ∈
      Fetched.pairs (fetches c scratch sv order s w) (Linter.images w.data.listLinters) :=
    Fetched.mem_pairs.mpr
      ⟨repo, commit, hmem, rfl, List.mem_filterMap.mpr ⟨linter, hlinter, himage⟩⟩
  obtain ⟨t, ht, hprint⟩ := hswept.extended.known _ hasked
  obtain ⟨hcommit, hid, hdigest⟩ : t.repo.commit = commit ∧ t.linter.id = image.id ∧
      t.linter.digest = image.digest := by
    simpa [TaskRow.fingerprint, Fingerprint.ofPair] using hprint
  refine ⟨t, ht, hcommit, hid.trans (image_id_of_listed hlinter himage), hdigest, ?_⟩
  obtain ⟨new, hpairs, hnew⟩ := hswept.extended.pairs_eq
  have hpair : t.pair ∈ w.data.pairs ++ new := hpairs ▸ List.mem_map_of_mem ht
  rcases List.mem_append.mp hpair with hold | hadded
  · exact .inr (.inl (List.mem_map.mp hold))
  · obtain ⟨other, commit', hother, hrevision, -⟩ := Fetched.mem_pairs.mp (hnew _ hadded)
    have hrevision : t.repo = ⟨other.source.id, other.source.url, commit'⟩ := hrevision
    have hsame : commit' = commit := by rw [← hcommit, hrevision]
    subst hsame
    by_cases hname : other.source.id = repo.source.id
    · exact .inl (by rw [hrevision, hname])
    · exact .inr (.inr ⟨other, hfetched.mem_iff.mp (List.mem_map_of_mem hother), hname,
        hhead other _ hother, by rw [hrevision]⟩)

end Stages

/-! ## A mirror -/

/-- A linter that can be run. -/
def runnable : Linter := .resolved ⟨"l", "https://linter", "main"⟩ ⟨"l", "image", "digest"⟩

/-- The world of a scheduler that watches a repository and its mirror. -/
def mirrored : World Store Unit :=
  ⟨.start, .empty,
    Store.empty.after [.putRepo original, .putRepo mirror, .putLinter runnable], 0, ()⟩

/-- What a worker leaves that has asked for a task. -/
def taking (s : Store) : Store := s.after [.tryTake .epoch .epoch]

theorem worked_taking (s : Store) : s.Worked (taking s) :=
  ⟨[.tryTake .epoch .epoch], by decide, rfl⟩

/-- A store at which a worker is served before every call that writes, and once more
when a task has been added; it lists the repositories as given. -/
def crowded (repos : List Repo) : Keeper Store :=
  { Store.keeperIn fun _ => repos with
    putRepo := fun repo s => (.ok (), (taking s).putRepo repo)
    tryAdd := fun t now s =>
      (((taking s).tryAdd t now).1, taking ((taking s).tryAdd t now).2) }

/-- Services of a host where a worker takes a task during each fetch, too. -/
def working (repos : List Repo) : Services Store Unit :=
  { Services.isolated (crowded repos) "socket" .epoch with
    fetch := fun _ _ _ _ w => (.ok "c0ffee", { w with data := taking w.data }) }

theorem attended_working (repos : List Repo) : (working repos).Attended fun _ => repos where
  listRepos s _ h := ⟨s, .refl s, (Except.ok.inj h).symm⟩
  listLinters s _ h := ⟨s, .refl s, (Except.ok.inj h).symm⟩
  putRepo _ s _ := ⟨taking s, worked_taking s, .refl _⟩
  tryAdd _ _ s := .inr ⟨taking s, worked_taking s, rfl, worked_taking _⟩
  fetch _ _ _ _ w := worked_taking w.data

theorem mirrored_listRepos : mirrored.data.listRepos = [original, mirror] := by
  rw [Store.listRepos, Store.repoRows, List.mergeSort_of_pairwise (by decide +kernel)]
  rfl

/-- The mirror has a task, which a worker may have taken already. -/
theorem pass_covers_mirror :
    let left := pass {} "/scratch" (working [original, mirror]) ⟨[0], none⟩ () mirrored
    left.1 = none ∧
      (∀ a ∈ answers {} "/scratch" (working [original, mirror]) (fun _ => [original, mirror])
        ⟨[0], none⟩ mirrored, ∃ outcome, a = .ok outcome) ∧
      ∃ commit, left.2.data.getRepo "b" = some (mirror.resolve commit) ∧
        ∃ t ∈ left.2.data.tasks, t.repo.commit = commit ∧ t.linter.id = "l" ∧
          t.linter.digest = "digest" := by
  intro left
  have hreport : left.1 = none := by decide +kernel
  have hanswers : ∀ a ∈ answers {} "/scratch" (working [original, mirror])
      (fun _ => [original, mirror]) ⟨[0], none⟩ mirrored, ∃ outcome, a = .ok outcome := by
    have heq : answers {} "/scratch" (working [original, mirror]) (fun _ => [original, mirror])
        ⟨[0], none⟩ mirrored = [.ok (.added "1"), .ok .duplicate] := by decide +kernel
    simp [heq]
  obtain ⟨commit, -, hstored, htasks⟩ := pass_covers (attended_working [original, mirror])
    (mirrored_listRepos ▸ .refl _) (by decide +kernel) hreport hanswers mirror
    (by simp [mirrored_listRepos])
  obtain ⟨t, ht, hcommit, hid, hdigest, -⟩ := htasks runnable (by decide +kernel) _ rfl
  exact ⟨hreport, hanswers, commit, hstored, t, ht, hcommit, hid, hdigest⟩

/-- It has none of its own, though both repositories are found and all requests are
answered as added or as a duplicate. -/
theorem mirror_without_own_task :
    let left := pass {} "/scratch" (working [original, mirror]) ⟨[0], none⟩ () mirrored
    mirrored.data.listRepos = [original, mirror] ∧ mirrored.data.listLinters = [runnable] ∧
      left.1 = none ∧
      fetches {} "/scratch" (working [original, mirror]) (fun _ => [original, mirror]) ⟨[0], none⟩
        mirrored = [(original, .ok "c0ffee"), (mirror, .ok "c0ffee")] ∧
      answers {} "/scratch" (working [original, mirror]) (fun _ => [original, mirror]) ⟨[0], none⟩
        mirrored = [.ok (.added "1"), .ok .duplicate] ∧
      ¬∃ t ∈ left.2.data.tasks, t.repo.id = mirror.source.id ∧ t.repo.commit = "c0ffee" ∧
        t.linter.id = runnable.source.id ∧ t.linter.digest = "digest" := by
  intro left
  exact ⟨mirrored_listRepos, by decide +kernel, by decide +kernel, by decide +kernel,
    by decide +kernel, by decide +kernel⟩

end Scheduler

end LintPatrol
