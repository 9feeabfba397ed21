import LintPatrol.Failure
import LintPatrol.Task.Basic

/-!
# LintPatrol.Lint.Outcome

How a run of a linter ends, and what is recorded of it.  A temporary failure
leaves the task to be run again; a fatal one ends it.
-/

namespace LintPatrol

open Time

/-- Why a run has no findings to show: the linter declined to run, the surroundings
failed, so that another run may succeed, or the linter failed. -/
inductive LintFailure where
  | skipped
  | temporary (reason : Failure)
  | fatal (reason : Failure)
deriving Repr, DecidableEq, Inhabited

namespace LintFailure

/-- The name of the kind of failure. -/
def kind : LintFailure → String
  | skipped => "Skipped"
  | temporary _ => "Temporary"
  | fatal _ => "Fatal"

/-- What is reported of the failure. -/
def message : LintFailure → String
  | skipped => "Lint skipped"
  | temporary reason => "Lint failed with temporary error: " ++ reason.full
  | fatal reason => "Lint failed: " ++ reason.full

/-- The causes of the failure. -/
def causes : LintFailure → List String
  | skipped => []
  | temporary reason => reason.chain
  | fatal reason => reason.chain

def failure (e : LintFailure) : Failure := ⟨e.message, e.causes⟩

/-- The status of a task whose run failed. -/
def status : LintFailure → TaskStatus
  | skipped => .skipped
  | temporary _ => .pending
  | fatal _ => .failed

/-- What is said about that status. -/
def comment? : LintFailure → Option String
  | skipped => none
  | e => some e.message

end LintFailure

/-- A run of a linter that has ended. -/
structure LintOutcome where
  result : Except LintFailure (List Finding)
  duration : Duration

/-- What is recorded of a run. -/
def LintOutcome.toResult (o : LintOutcome) : TaskResult :=
  match o.result with
  | .ok findings => ⟨.succeeded, none, o.duration, findings⟩
  | .error e => ⟨e.status, e.comment?, o.duration, []⟩

end LintPatrol
