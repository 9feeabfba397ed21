import LintPatrol.Failure
import LintPatrol.Task.Basic

/-!
# LintPatrol.Store.Error

Why the store refuses an operation.  Two of the errors are part of the daily
course of things: a task that is stored already, and a queue that is empty.
-/

namespace LintPatrol

/-- Why the store refuses an operation. -/
inductive StoreError where
  | duplicateTask (fingerprint : Fingerprint)
  | noTasksAvailable
  | notPending (taskId : String)
  | leaseLost (taskId : String)
  | database (reason : Failure)
deriving Repr, DecidableEq, Inhabited

namespace StoreError

/-- The name of the kind of error. -/
def kind : StoreError → String
  | duplicateTask _ => "DuplicateTask"
  | noTasksAvailable => "NoTasksAvailable"
  | notPending _ => "NotPending"
  | leaseLost _ => "LeaseLost"
  | database _ => "Database"

/-- What is reported of the error. -/
def message : StoreError → String
  | duplicateTask f => "Lint task " ++ f.display ++ " already exists"
  | noTasksAvailable => "No lint tasks available"
  | notPending id => "Lint task " ++ id ++ " is not pending"
  | leaseLost id => "Lease on lint task " ++ id ++ " is held by another worker"
  | database reason => "Database error: " ++ reason.full

/-- The causes of the error. -/
def causes : StoreError → List String
  | database reason => reason.chain
  | _ => []

def failure (e : StoreError) : Failure := ⟨e.message, e.causes⟩

/-- Is the error part of the daily course of things? -/
def isExpected : StoreError → Bool
  | duplicateTask _ => true
  | noTasksAvailable => true
  | _ => false

end StoreError

end LintPatrol
