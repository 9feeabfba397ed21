import LintPatrol.Checkout.Findings
import LintPatrol.Highlight.Annotation
import LintPatrol.Lint.Outcome
import LintPatrol.Role.World

/-!
# LintPatrol.Lint.Run

One run of a linter: the revision is checked out into a directory of its own,
the image is run on it, and its output is decoded.  The checkout is removed
whatever happens.  A revision without a commit, a linter that ends with an
error or floods its output, and findings that do not fit the files are fatal;
all other failures are temporary.
-/

namespace LintPatrol

/-- What a failed checkout means for the run. -/
def LintFailure.ofGit (repo : RepoRevision) (e : GitError) : LintFailure :=
  let reason := e.failure.within ("Clone of repo " ++ repo.display ++ " failed")
  match e with
  | .emptyRef _ => .fatal reason
  | _ => .temporary reason

/-- What a failed container means for the run. -/
def LintFailure.ofSandbox (linter : LinterImage) (e : SandboxError) : LintFailure :=
  match e with
  | .nonZeroExitCode _ | .outputRejected .. =>
    .fatal (e.failure.within ("Linter " ++ linter.display ++ " failed"))
  | _ => .temporary (e.failure.within ("Exec of linter " ++ linter.display ++ " failed"))

/-- What the output of a linter comes to in a checkout. -/
def LintFailure.judge (files : Tree) (dir : String) (lines : List String) :
    Except LintFailure (List Finding) :=
  match Annotation.extract lines with
  | .skipped => .error .skipped
  | .highlights hs =>
    match Excerpt.ofDirectory files dir hs with
    | .ok findings => .ok findings
    | .error .crashed => .error (.temporary (.plain "Snippet extraction panicked"))
    | .error e => .error (.fatal ⟨"Failed to extract snippets", e.message :: e.causes⟩)

namespace Services

variable {δ ε : Type}

/-- Runs a linter on a revision in a directory made for it. -/
def lintIn (sv : Services δ ε) (mount : String) (s : Scope) (repo : RepoRevision)
    (linter : LinterImage) (dir : String) (w : World δ ε) :
    Except LintFailure (List Finding) × World δ ε :=
  match sv.fetch s repo.url (.commit repo.commit) dir w with
  | (.error e, w) => (.error (.ofGit repo e), w)
  | (.ok _, w) =>
    match sv.exec s linter.reference mount dir w with
    | (.error e, w) => (.error (.ofSandbox linter e), w)
    | (.ok lines, w) => (LintFailure.judge w.files dir lines, w)

/-- Runs a linter on a revision. -/
def lint (sv : Services δ ε) (scratch mount : String) (s : Scope) (repo : RepoRevision)
    (linter : LinterImage) (w : World δ ε) : Except LintFailure (List Finding) × World δ ε :=
  match w.openCheckout sv.checkoutName scratch with
  | .error f => (.error (.temporary f), w)
  | .ok (dir, w) =>
    let (result, w) := sv.lintIn mount s repo linter dir w
    (result, w.closeCheckout dir)

end Services

end LintPatrol
