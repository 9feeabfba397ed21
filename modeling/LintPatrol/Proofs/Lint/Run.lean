import LintPatrol.Lint.Run
import LintPatrol.Proofs.Checkout.Making
import LintPatrol.Proofs.Highlight.Notice
import LintPatrol.Role.World

/-!
# LintPatrol.Proofs.Lint.Run

How a run of a linter ends.  What the run meets with, a revision that is fetched or not,
an image that is run or not, and the files that are left, decides the kind of its ending
(`Encounter`); a revision without a commit, a linter that fails and findings that do not
fit the files end it for good, an output that declines to run is no failure, and after
everything else the run may be made again.  The image is run only on what was fetched:
that is seen by noting all requests (`Services.noting`), which leaves the run as it is.
The directory of the checkout is a new one, so whatever happens in it is gone once it
has been removed (`World.node?_closeCheckout`).

## Main statements

* `lintIn_noting`: which requests a run makes.
* `lint_classified`: how it ends, and that it leaves the files as they were.
-/

namespace LintPatrol

/-! ## What a run meets with -/

/-- The revision is one without a commit. -/
def GitError.IsFatal (e : GitError) : Prop := ∃ url, e = .emptyRef url

/-- The linter failed, or its output was rejected. -/
def SandboxError.IsFatal (e : SandboxError) : Prop :=
  (∃ code, e = .nonZeroExitCode code) ∨ ∃ container reason, e = .outputRejected container reason

/-- One of the lines says that the linter declined to run. -/
def Annotation.Declines (lines : List String) : Prop := ∃ l ∈ lines, skipMarker.toList <+: l.toList

/-- What comes of fetching the revision and of running the image, and where the files of
the checkout are then. -/
structure Encounter where
  fetched : Except GitError String
  ran : Except SandboxError (List String)
  files : Tree
  dir : String

namespace Encounter

variable (m : Encounter)

/-- The image has run, and the output is read as these highlights. -/
def Reports (hs : List Highlight) : Prop :=
  (∃ commit, m.fetched = .ok commit) ∧ ∃ lines, m.ran = .ok lines ∧
    ¬ Annotation.Declines lines ∧ Annotation.extract lines = .highlights hs

/-- Another run would come to the same. -/
def IsFatal : Prop :=
  (∃ e, m.fetched = .error e ∧ e.IsFatal) ∨
    ((∃ commit, m.fetched = .ok commit) ∧ ∃ e, m.ran = .error e ∧ e.IsFatal) ∨
      ∃ hs e, m.Reports hs ∧ Excerpt.ofDirectory m.files m.dir hs = .error e ∧ e ≠ .crashed

/-- The image has run, and declined to. -/
def IsSkipped : Prop :=
  (∃ commit, m.fetched = .ok commit) ∧ ∃ lines, m.ran = .ok lines ∧ Annotation.Declines lines

/-- The image has run, and these are the findings. -/
def Finds (findings : List Finding) : Prop :=
  ∃ hs, m.Reports hs ∧ Excerpt.ofDirectory m.files m.dir hs = .ok findings

/-- The result of a run. -/
def result (repo : RepoRevision) (linter : LinterImage) : Except LintFailure (List Finding) :=
  match m.fetched with
  | .error e => .error (.ofGit repo e)
  | .ok _ =>
    match m.ran with
    | .error e => .error (.ofSandbox linter e)
    | .ok lines => LintFailure.judge m.files m.dir lines

end Encounter

namespace LintFailure

/-- A fatal error of a fetch fails the task. -/
theorem ofGit_of_isFatal {e : GitError} (h : e.IsFatal) (repo : RepoRevision) :
    ∃ reason, ofGit repo e = .fatal reason := by
  obtain ⟨url, rfl⟩ := h
  exact ⟨_, rfl⟩

/-- After any other one the task can be tried again. -/
theorem ofGit_of_not_isFatal {e : GitError} (h : ¬e.IsFatal) (repo : RepoRevision) :
    ∃ reason, ofGit repo e = .temporary reason := by
  unfold ofGit
  split
  · next url => exact absurd ⟨url, rfl⟩ h
  · exact ⟨_, rfl⟩

/-- A fatal error of a run fails the task. -/
theorem ofSandbox_of_isFatal {e : SandboxError} (h : e.IsFatal) (linter : LinterImage) :
    ∃ reason, ofSandbox linter e = .fatal reason := by
  obtain ⟨code, rfl⟩ | ⟨container, reason, rfl⟩ := h
  · exact ⟨_, rfl⟩
  · exact ⟨_, rfl⟩

/-- After any other one the task can be tried again. -/
theorem ofSandbox_of_not_isFatal {e : SandboxError} (h : ¬e.IsFatal) (linter : LinterImage) :
    ∃ reason, ofSandbox linter e = .temporary reason := by
  unfold ofSandbox
  split
  · next code => exact absurd (.inl ⟨code, rfl⟩) h
  · next container reason => exact absurd (.inr ⟨container, reason, rfl⟩) h
  · exact ⟨_, rfl⟩

section Judge

variable {files : Tree} {dir : String} {lines : List String} {hs : List Highlight}
  (hlines : Annotation.extract lines = .highlights hs)
include hlines

theorem judge_of_ok {findings : List Finding}
    (h : Excerpt.ofDirectory files dir hs = .ok findings) :
    judge files dir lines = .ok findings := by
  rw [judge, hlines]
  simp only [h]

/-- That the findings broke down is no fault of the linter's. -/
theorem judge_of_crashed (h : Excerpt.ofDirectory files dir hs = .error .crashed) :
    ∃ reason, judge files dir lines = .error (.temporary reason) := by
  rw [judge, hlines]
  simp only [h]
  exact ⟨_, rfl⟩

/-- Findings that cannot be had are. -/
theorem judge_of_error {e : ExcerptError} (h : Excerpt.ofDirectory files dir hs = .error e)
    (hcrashed : e ≠ .crashed) : ∃ reason, judge files dir lines = .error (.fatal reason) := by
  rw [judge, hlines]
  simp only [h]
  exact ⟨_, rfl⟩

end Judge

end LintFailure

/-- An output is read as highlights just if none of its lines declines to run. -/
theorem Annotation.extract_cases (lines : List String) :
    (Declines lines ∧ extract lines = .skipped) ∨
      ¬Declines lines ∧ ∃ hs, extract lines = .highlights hs := by
  have hskip : extract lines = .skipped ↔ Declines lines := extractFrom_eq_skipped_iff [] lines
  cases h : extract lines with
  | skipped => exact .inl ⟨hskip.mp h, rfl⟩
  | highlights hs =>
    refine .inr ⟨fun hdeclines => ?_, hs, rfl⟩
    rw [hskip.mpr hdeclines] at h
    cases h

namespace Encounter

/-- The kind of an ending is that of what the run met with. -/
structure Decides (m : Encounter) (r : Except LintFailure (List Finding)) : Prop where
  fatal : (∃ reason, r = .error (.fatal reason)) ↔ m.IsFatal
  skipped : r = .error .skipped ↔ m.IsSkipped
  found : ∀ findings, r = .ok findings ↔ m.Finds findings

/-- A revision that was not fetched decides. -/
theorem decides_of_fetch_error {m : Encounter} {e : GitError} (h : m.fetched = .error e)
    (repo : RepoRevision) (linter : LinterImage) : m.Decides (m.result repo linter) := by
  have hresult : m.result repo linter = .error (.ofGit repo e) := by rw [result, h]
  rw [hresult]
  by_cases hfatal : e.IsFatal
  · obtain ⟨reason, heq⟩ := LintFailure.ofGit_of_isFatal hfatal repo
    constructor <;> simp [IsFatal, IsSkipped, Finds, Reports, h, hfatal, heq]
  · obtain ⟨reason, heq⟩ := LintFailure.ofGit_of_not_isFatal hfatal repo
    constructor <;> simp [IsFatal, IsSkipped, Finds, Reports, h, hfatal, heq]

/-- So does an image that did not run. -/
theorem decides_of_exec_error {m : Encounter} {commit : String} {e : SandboxError}
    (hfetched : m.fetched = .ok commit) (h : m.ran = .error e) (repo : RepoRevision)
    (linter : LinterImage) : m.Decides (m.result repo linter) := by
  have hresult : m.result repo linter = .error (.ofSandbox linter e) := by
    rw [result, hfetched, h]
  rw [hresult]
  by_cases hfatal : e.IsFatal
  · obtain ⟨reason, heq⟩ := LintFailure.ofSandbox_of_isFatal hfatal linter
    constructor <;> simp [IsFatal, IsSkipped, Finds, Reports, hfetched, h, hfatal, heq]
  · obtain ⟨reason, heq⟩ := LintFailure.ofSandbox_of_not_isFatal hfatal linter
    constructor <;> simp [IsFatal, IsSkipped, Finds, Reports, hfetched, h, hfatal, heq]

/-- So do the lines of an image that did. -/
theorem decides_of_lines {m : Encounter} {commit : String} {lines : List String}
    (hfetched : m.fetched = .ok commit) (h : m.ran = .ok lines) (repo : RepoRevision)
    (linter : LinterImage) : m.Decides (m.result repo linter) := by
  have hresult : m.result repo linter = LintFailure.judge m.files m.dir lines := by
    rw [result, hfetched, h]
  rw [hresult]
  rcases Annotation.extract_cases lines with ⟨hdeclines, heq⟩ | ⟨hnot, hs, heq⟩
  · rw [LintFailure.judge, heq]
    constructor <;> simp [IsFatal, IsSkipped, Finds, Reports, hfetched, h, hdeclines]
  · cases hexcerpt : Excerpt.ofDirectory m.files m.dir hs with
    | ok findings =>
      rw [LintFailure.judge_of_ok heq hexcerpt]
      constructor <;> simp [IsFatal, IsSkipped, Finds, Reports, hfetched, h, hnot, heq, hexcerpt]
    | error e =>
      by_cases hcrashed : e = .crashed
      · obtain ⟨reason, hjudge⟩ := LintFailure.judge_of_crashed heq (hcrashed ▸ hexcerpt)
        rw [hjudge]
        constructor <;>
          simp [IsFatal, IsSkipped, Finds, Reports, hfetched, h, hnot, heq, hexcerpt, hcrashed]
      · obtain ⟨reason, hjudge⟩ := LintFailure.judge_of_error heq hexcerpt hcrashed
        rw [hjudge]
        constructor <;>
          simp [IsFatal, IsSkipped, Finds, Reports, hfetched, h, hnot, heq, hexcerpt, hcrashed]

/-- **What a run meets with decides how it ends.** -/
theorem decides_result (m : Encounter) (repo : RepoRevision) (linter : LinterImage) :
    m.Decides (m.result repo linter) := by
  cases hfetched : m.fetched with
  | error e => exact decides_of_fetch_error hfetched repo linter
  | ok commit =>
    cases hran : m.ran with
    | error e => exact decides_of_exec_error hfetched hran repo linter
    | ok lines => exact decides_of_lines hfetched hran repo linter

/-- In every other case the run may be made again. -/
theorem Decides.temporary {m : Encounter} {r : Except LintFailure (List Finding)}
    (h : m.Decides r) : (∃ reason, r = .error (.temporary reason)) ↔
      ¬m.IsFatal ∧ ¬m.IsSkipped ∧ ∀ findings, ¬m.Finds findings := by
  simp only [← h.fatal, ← h.skipped, ← h.found]
  match r with
  | .ok findings => simp
  | .error .skipped => simp
  | .error (.fatal reason) => simp
  | .error (.temporary reason) => simp

/-- A fetch that fails otherwise is such a case. -/
theorem Decides.temporary_of_fetch {m : Encounter} {r : Except LintFailure (List Finding)}
    (h : m.Decides r) {e : GitError} (hfetched : m.fetched = .error e) (hfatal : ¬e.IsFatal) :
    ∃ reason, r = .error (.temporary reason) :=
  h.temporary.mpr (by simp [IsFatal, IsSkipped, Finds, Reports, hfetched, hfatal])

/-- So is an image that fails otherwise. -/
theorem Decides.temporary_of_exec {m : Encounter} {r : Except LintFailure (List Finding)}
    (h : m.Decides r) {commit : String} {e : SandboxError} (hfetched : m.fetched = .ok commit)
    (hran : m.ran = .error e) (hfatal : ¬e.IsFatal) : ∃ reason, r = .error (.temporary reason) :=
  h.temporary.mpr (by simp [IsFatal, IsSkipped, Finds, Reports, hfetched, hran, hfatal])

end Encounter

/-! ## What a run requests -/

/-- A request of a run. -/
inductive Request where
  | fetch (s : Scope) (url : String) (ref : GitRef) (dir : String)
  | exec (s : Scope) (image mount dir : String)

variable {δ ε : Type}

/-- The world with something else outside. -/
def World.withOutside {ε' : Type} (w : World δ ε) (o : ε') : World δ ε' :=
  { time := w.time, files := w.files, data := w.data, named := w.named, outside := o }

@[simp] theorem World.files_withOutside {ε' : Type} (w : World δ ε) (o : ε') :
    (w.withOutside o).files = w.files := rfl

theorem World.closeCheckout_withOutside {ε' : Type} (w : World δ ε) (o : ε') (dir : String) :
    (w.withOutside o).closeCheckout dir = (w.closeCheckout dir).withOutside o := by
  rw [closeCheckout, files_withOutside, closeCheckout]
  cases w.files.resolve dir <;> rfl

theorem World.outside_closeCheckout (dir : String) (w : World δ ε) :
    (w.closeCheckout dir).outside = w.outside := by
  unfold closeCheckout
  split <;> rfl

namespace Services

/-- Services that note what is requested of them, and do the same. -/
def noting (sv : Services δ ε) : Services δ (ε × List Request) where
  keeper := sv.keeper
  fetch s url ref dir w :=
    let (found, w') := sv.fetch s url ref dir (w.withOutside w.outside.1)
    (found, w'.withOutside (w'.outside, w.outside.2 ++ [.fetch s url ref dir]))
  exec s image mount dir w :=
    let (lines, w') := sv.exec s image mount dir (w.withOutside w.outside.1)
    (lines, w'.withOutside (w'.outside, w.outside.2 ++ [.exec s image mount dir]))
  cleanup s w :=
    let (report, w') := sv.cleanup s (w.withOutside w.outside.1)
    (report, w'.withOutside (w'.outside, w.outside.2))
  clock := sv.clock
  taskName := sv.taskName
  checkoutName := sv.checkoutName

variable (sv : Services δ ε) (scratch mount : String) (s : Scope) (repo : RepoRevision)
  (linter : LinterImage) (dir : String) (w : World δ ε)

def fetched : Except GitError String × World δ ε := sv.fetch s repo.url (.commit repo.commit) dir w

def ran : Except SandboxError (List String) × World δ ε :=
  sv.exec s linter.reference mount dir (sv.fetched s repo dir w).2

/-- What a run in that directory meets with. -/
def encounter : Encounter :=
  ⟨(sv.fetched s repo dir w).1, (sv.ran mount s repo linter dir w).1,
    (sv.ran mount s repo linter dir w).2.files, dir⟩

/-- What a run in that directory requests. -/
def requests : List Request :=
  .fetch s repo.url (.commit repo.commit) dir ::
    if (sv.fetched s repo dir w).1.isOk then [.exec s linter.reference mount dir] else []

/-- The world after a run in that directory. -/
def left : World δ ε :=
  if (sv.fetched s repo dir w).1.isOk then (sv.ran mount s repo linter dir w).2
  else (sv.fetched s repo dir w).2

/-- What comes of a lint is decided by what it came across. -/
theorem lintIn_eq : sv.lintIn mount s repo linter dir w =
    ((sv.encounter mount s repo linter dir w).result repo linter,
      sv.left mount s repo linter dir w) := by
  unfold lintIn encounter left ran Encounter.result fetched
  cases hf : sv.fetch s repo.url (.commit repo.commit) dir w with
  | mk found w' =>
    cases found with
    | error e => rfl
    | ok commit =>
      simp only
      cases hr : sv.exec s linter.reference mount dir w' with
      | mk lines w'' => cases lines <;> rfl

/-- The same services, asked in the same world, with a list of what was requested before. -/
theorem fetch_noting (url : String) (ref : GitRef) (log : List Request) :
    sv.noting.fetch s url ref dir (w.withOutside (w.outside, log)) =
      ((sv.fetch s url ref dir w).1, (sv.fetch s url ref dir w).2.withOutside
        ((sv.fetch s url ref dir w).2.outside, log ++ [.fetch s url ref dir])) := rfl

/-- A run of an image is noted behind what was noted before. -/
theorem exec_noting (image : String) (log : List Request) :
    sv.noting.exec s image mount dir (w.withOutside (w.outside, log)) =
      ((sv.exec s image mount dir w).1, (sv.exec s image mount dir w).2.withOutside
        ((sv.exec s image mount dir w).2.outside, log ++ [.exec s image mount dir])) := rfl

/-- **The image is requested to run just if the revision has been fetched.** -/
theorem lintIn_noting (log : List Request) :
    sv.noting.lintIn mount s repo linter dir (w.withOutside (w.outside, log)) =
      ((sv.lintIn mount s repo linter dir w).1,
        (sv.lintIn mount s repo linter dir w).2.withOutside
          ((sv.lintIn mount s repo linter dir w).2.outside,
            log ++ sv.requests mount s repo linter dir w)) := by
  unfold lintIn requests fetched
  rw [fetch_noting]
  cases hf : sv.fetch s repo.url (.commit repo.commit) dir w with
  | mk found w' =>
    cases found with
    | error e => rfl
    | ok commit =>
      simp only
      rw [exec_noting, List.append_assoc]
      cases hr : sv.exec s linter.reference mount dir w' with
      | mk lines w'' => cases lines <;> rfl

end Services

/-! ## The directory of a checkout -/

namespace World

variable {w : World δ ε} {name : Nat → String} {scratch : String}

/-- The world with a new directory for a checkout. -/
def opened (dir : String) (w : World δ ε) : World δ ε :=
  { w with files := w.files.makeDirectory (Tree.target [] dir), named := w.named + 1 }

/-- A directory for a checkout is made where it can be. -/
theorem openCheckout_eq (h : w.files.Admits scratch (name w.named)) :
    w.openCheckout name scratch =
      .ok (Tree.joinPath scratch (name w.named),
        w.opened (Tree.joinPath scratch (name w.named))) := by
  simp only [openCheckout, h.createAll_eq, h.createAll_joinPath]
  rfl

/-- **Nothing is left of a new directory** once it has been removed. -/
theorem node?_closeCheckout {t : Tree} {name : String} (h : t.Admits scratch name)
    (hw : Tree.ChangedWithin (Tree.target [] (Tree.joinPath scratch name)) t w.files)
    (q : Place) : (w.closeCheckout (Tree.joinPath scratch name)).files.node? q = t.node? q := by
  have hbelow : Tree.target [] (Tree.joinPath scratch name) <+: q → t.node? q = none :=
    Tree.node?_eq_none_below h.fresh
  rw [closeCheckout, h.resolve_joinPath hw]
  cases hnode : w.files.node? (Tree.target [] (Tree.joinPath scratch name)) with
  | none =>
    -- It has been taken away already.
    by_cases hq : Tree.target [] (Tree.joinPath scratch name) <+: q
    · rw [hbelow hq]
      exact Tree.node?_eq_none_below hnode hq
    · exact hw.outside q hq
  | some node =>
    have hdir : w.files.isDirectory (Tree.target [] (Tree.joinPath scratch name)) = true := by
      cases node with
      | directory => rw [Tree.isDirectory, hnode]; rfl
      | file content =>
        have hfile := hw.noFile content hnode
        rw [h.fresh] at hfile
        cases hfile
    have hne : Tree.target [] (Tree.joinPath scratch name) ≠ [] := by
      rw [h.isName.target_joinPath]
      exact List.concat_ne_nil _ _
    simp only [Option.isSome_some, if_true, hdir]
    rw [Tree.node?_remove hne (by rw [hnode]; rfl)]
    split
    · next hq => exact (hbelow hq).symm
    · next hq => exact hw.outside q hq

end World

namespace Services

/-- What a fetch and a run of an image change of the files is in the directory that
they are given, in place of which they put no file. -/
structure KeepsTo (sv : Services δ ε) : Prop where
  fetch : ∀ s url ref dir w,
    Tree.ChangedWithin (Tree.target [] dir) w.files (sv.fetch s url ref dir w).2.files
  exec : ∀ s image mount dir w,
    Tree.ChangedWithin (Tree.target [] dir) w.files (sv.exec s image mount dir w).2.files

variable {sv : Services δ ε} {w : World δ ε} {scratch mount : String} {s : Scope}
  {repo : RepoRevision} {linter : LinterImage}

/-- A run changes files in its directory only. -/
theorem KeepsTo.left (h : sv.KeepsTo) (dir : String) (w : World δ ε) :
    Tree.ChangedWithin (Tree.target [] dir) w.files (sv.left mount s repo linter dir w).files := by
  unfold Services.left
  split
  · exact (h.fetch _ _ _ _ _).trans (h.exec _ _ _ _ _)
  · exact h.fetch _ _ _ _ _

/-- Where a checkout can be made, a lint works in it and removes it. -/
theorem lint_eq (h : w.files.Admits scratch (sv.checkoutName w.named)) :
    sv.lint scratch mount s repo linter w =
      let dir := Tree.joinPath scratch (sv.checkoutName w.named)
      ((sv.encounter mount s repo linter dir (w.opened dir)).result repo linter,
        (sv.left mount s repo linter dir (w.opened dir)).closeCheckout dir) := by
  rw [lint, World.openCheckout_eq h]
  simp only [lintIn_eq]

/-- The same run, its requests noted. -/
theorem lint_noting (h : w.files.Admits scratch (sv.checkoutName w.named)) :
    let dir := Tree.joinPath scratch (sv.checkoutName w.named)
    sv.noting.lint scratch mount s repo linter (w.withOutside (w.outside, [])) =
      ((sv.lint scratch mount s repo linter w).1,
        (sv.lint scratch mount s repo linter w).2.withOutside
          ((sv.lint scratch mount s repo linter w).2.outside,
            sv.requests mount s repo linter dir (w.opened dir))) := by
  intro dir
  have hopen : (w.withOutside (w.outside, ([] : List Request))).openCheckout
      sv.noting.checkoutName scratch =
        .ok (dir, (w.opened dir).withOutside ((w.opened dir).outside, [])) :=
    World.openCheckout_eq (w := w.withOutside (w.outside, ([] : List Request))) h
  rw [lint, lint, hopen, World.openCheckout_eq h]
  simp only [lintIn_noting, World.closeCheckout_withOutside, World.outside_closeCheckout,
    List.nil_append]
  rfl

/-- **How a run ends**, and what it requests; in every case the files are left as they
were. -/
theorem lint_classified (mount : String) (s : Scope) (repo : RepoRevision) (linter : LinterImage)
    (hscratch : w.files.Admits scratch (sv.checkoutName w.named)) (hsv : sv.KeepsTo) :
    let dir := Tree.joinPath scratch (sv.checkoutName w.named)
    let met := sv.encounter mount s repo linter dir (w.opened dir)
    let done := sv.lint scratch mount s repo linter w
    sv.noting.lint scratch mount s repo linter (w.withOutside (w.outside, [])) =
        (done.1, done.2.withOutside
          (done.2.outside, sv.requests mount s repo linter dir (w.opened dir))) ∧
      ((∃ reason, done.1 = .error (.fatal reason)) ↔ met.IsFatal) ∧
      (done.1 = .error .skipped ↔ met.IsSkipped) ∧
      (∀ findings, done.1 = .ok findings ↔ met.Finds findings) ∧
      ((∃ reason, done.1 = .error (.temporary reason)) ↔
        ¬met.IsFatal ∧ ¬met.IsSkipped ∧ ∀ findings, ¬met.Finds findings) ∧
      (∀ e, met.fetched = .error e → ¬e.IsFatal → ∃ reason, done.1 = .error (.temporary reason)) ∧
      (∀ commit e, met.fetched = .ok commit → met.ran = .error e → ¬e.IsFatal →
        ∃ reason, done.1 = .error (.temporary reason)) ∧
      ∀ place, done.2.files.node? place = w.files.node? place := by
  intro dir met done
  have hdone : done = (met.result repo linter,
      (sv.left mount s repo linter dir (w.opened dir)).closeCheckout dir) := lint_eq hscratch
  have hdecides : met.Decides done.1 := hdone ▸ met.decides_result repo linter
  have hchanged : Tree.ChangedWithin (Tree.target [] dir) w.files
      (sv.left mount s repo linter dir (w.opened dir)).files :=
    hscratch.changedWithin_makeDirectory.trans (hsv.left dir (w.opened dir))
  refine ⟨lint_noting hscratch, hdecides.fatal, hdecides.skipped, hdecides.found,
    hdecides.temporary, fun e => hdecides.temporary_of_fetch,
    fun commit e => hdecides.temporary_of_exec, fun place => ?_⟩
  rw [hdone]
  exact World.node?_closeCheckout hscratch hchanged place

/-- Services that put one file into each checkout; every image finds something in it. -/
def bench : Services Store Unit :=
  { isolated Store.keeper "socket" .epoch with
    fetch := fun _ _ _ dir w =>
      let place := Tree.target [] dir
      (.ok "c0ffee", { w with
        files :=
          if w.files.isDirectory place then w.files.put (place ++ ["a"]) [120] else w.files })
    exec := fun _ _ _ _ w => (.ok ["::error file=a,line=1::x"], w) }

theorem keepsTo_bench : bench.KeepsTo where
  fetch s url ref dir w := by
    simp only [bench]
    split
    · next hdir => exact Tree.changedWithin_put hdir (List.cons_ne_nil "a" []) _
    · exact .refl ..
  exec _ _ _ _ _ := .refl ..

/-- Something is found in a checkout, of which nothing is left afterwards. -/
theorem lint_classified_finds :
    let w : World Store Unit := ⟨.start, ⟨[(["s", "old"], [])], []⟩, .empty, 7, ()⟩
    let done := bench.lint "/s" "/src" ⟨[0], none⟩ ⟨"r", "url", "c0ffee"⟩ ⟨"l", "image", "d"⟩ w
    w.files.Admits "/s" (bench.checkoutName w.named) ∧ bench.KeepsTo ∧
      (∃ findings, done.1 = .ok findings ∧ findings.length = 1) ∧
      ∀ place, done.2.files.node? place = w.files.node? place := by
  intro w done
  have hscratch : w.files.Admits "/s" (bench.checkoutName w.named) := by
    refine ⟨⟨by decide, by decide, by decide, by decide, by decide⟩, by decide, by decide,
      ⟨["s"], by decide, by decide⟩, by decide⟩
  obtain ⟨-, -, -, -, -, -, -, hfiles⟩ := lint_classified "/src" ⟨[0], none⟩ ⟨"r", "url", "c0ffee"⟩
    ⟨"l", "image", "d"⟩ hscratch keepsTo_bench
  refine ⟨hscratch, keepsTo_bench, ?_, hfiles⟩
  have hlength : done.1.toOption.map List.length = some 1 := by decide +kernel
  cases hresult : done.1 with
  | error e =>
    rw [hresult] at hlength
    cases hlength
  | ok findings =>
    rw [hresult] at hlength
    exact ⟨findings, rfl, Option.some.inj hlength⟩

end Services

end LintPatrol
