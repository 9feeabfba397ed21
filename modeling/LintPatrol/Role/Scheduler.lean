import LintPatrol.Config.Basic
import LintPatrol.Role.Step

/-!
# LintPatrol.Role.Scheduler

The scheduler fetches every repository and adds a task for each linter that
can be run on the commit found.  A task with the same fingerprint is not
added again.  What fails for one repository does not keep the others from
being refreshed, and a task that cannot be added does not keep the others
from being added.
-/

namespace LintPatrol

open Time

/-- What came of asking for a task: it was added under that name, or there was one
already. -/
inductive Scheduled where
  | added (taskId : String)
  | duplicate
deriving Repr, DecidableEq

namespace Services

variable {δ ε : Type}

/-- Adds a task for a linter and a revision, unless there is one already. -/
def schedule (sv : Services δ ε) (repo : RepoRevision) (linter : LinterImage) (w : World δ ε) :
    Except StoreError Scheduled × World δ ε :=
  let now := sv.clock w.time
  let task := Task.fresh (sv.taskName w.named) linter repo now
  let (added, data) := sv.keeper.tryAdd task now w.data
  let w := { w with data := data, named := w.named + 1 }
  match added with
  | .ok () => (.ok (.added task.id), w)
  | .error (.duplicateTask _) => (.ok .duplicate, w)
  | .error e => (.error e, w)

/-! ## The stages -/

/-- Lists the repositories. -/
def listRepos (sv : Services δ ε) (s : Scope) (_ : Unit) (w : World δ ε) :
    Ending Repo × World δ ε :=
  match w.look s sv.keeper.listRepos with
  | none => (.failed (.plain Scope.expiredMessage), w)
  | some (.error e) => (.failed (e.failure.within "Failed to list repos"), w)
  | some (.ok repos) => (.produced repos, w)

/-- Finds the commit at the head of a repository. -/
def head (sv : Services δ ε) (scratch : String) (s : Scope) (repo : Repo) (w : World δ ε) :
    Except Failure String × World δ ε :=
  match w.openCheckout sv.checkoutName scratch with
  | .error f => (.error f, w)
  | .ok (dir, w) =>
    let (found, w) := sv.fetch s repo.source.url (.branch repo.source.branch) dir w
    (found.mapError fun e => e.failure.within ("Failed to fetch repo " ++ repo.source.id),
      w.closeCheckout dir)

/-- Fetches a repository and stores the commit found. -/
def refreshed (sv : Services δ ε) (scratch : String) (s : Scope) (repo : Repo) (w : World δ ε) :
    Except Failure Repo × World δ ε :=
  match sv.head scratch s repo w with
  | (.error f, w) => (.error f, w)
  | (.ok commit, w) =>
    match w.call s (sv.keeper.putRepo (repo.resolve commit)) with
    | (none, w) => (.error (.plain Scope.expiredMessage), w)
    | (some (.error e), w) =>
      (.error (e.failure.within ("Failed to store repo " ++ repo.source.id)), w)
    | (some (.ok ()), w) => (.ok (repo.resolve commit), w)

/-- Refreshes a repository. -/
def refreshRepo (sv : Services δ ε) (scratch : String) (s : Scope) (repo : Repo) (w : World δ ε) :
    Ending Repo × World δ ε :=
  match sv.refreshed scratch s repo w with
  | (.error f, w) => (.failed (f.within ("Refresh of repo " ++ repo.source.id ++ " failed")), w)
  | (.ok repo, w) => (.produced [repo], w)

/-- Adds a task for each of some linters; says whether the scope lasted. -/
def scheduleAll (sv : Services δ ε) (s : Scope) (repo : RepoRevision) :
    List LinterImage → World δ ε → Bool × World δ ε
  | [], w => (true, w)
  | l :: ls, w =>
    if w.time.isExpired s then (false, w) else scheduleAll sv s repo ls (sv.schedule repo l w).2

/-- Adds the tasks of a repository. -/
def scheduleRepo (sv : Services δ ε) (s : Scope) (repo : Repo) (w : World δ ε) :
    Ending Unit × World δ ε :=
  match repo.revision? with
  | none => (.produced [], w)
  | some revision =>
    match w.look s sv.keeper.listLinters with
    | none => (.failed (.plain Scope.expiredMessage), w)
    | some (.error e) => (.failed (e.failure.within "Failed to list linters"), w)
    | some (.ok linters) =>
      match sv.scheduleAll s revision (Linter.images linters) w with
      | (true, w) => (.produced [], w)
      | (false, w) => (.failed (.plain Scope.expiredMessage), w)

end Services

/-! ## The chain -/

namespace Scheduler

variable {δ ε : Type}

/-- One pass over all repositories, with checkouts in a scratch directory. -/
def pass (c : SchedulerConfig) (scratch : String) (sv : Services δ ε) : World.Rest δ ε Unit :=
  World.step "list-repos" (.ofSeconds c.fetchTimeoutSecs) sv.listRepos <|
    World.step "refresh-repo" (.ofSeconds c.refreshTimeoutSecs) (sv.refreshRepo scratch) <|
      World.step "schedule" (.ofSeconds c.scheduleTimeoutSecs) sv.scheduleRepo World.done

/-- Passes over all repositories, until the scope is at its end. -/
def run (c : SchedulerConfig) (scratch : String) (sv : Services δ ε) (s : Scope) (rounds : Nat) :
    World δ ε → World δ ε :=
  World.repeatedly (.ofSeconds c.failDelaySecs) (.ofSeconds c.successDelaySecs) s
    (pass c scratch sv) rounds

end Scheduler

end LintPatrol
