import LintPatrol.Store.Basic

/-!
# LintPatrol.Store.Queue

The queue of tasks.  A task is added once for each fingerprint.  A worker
takes the oldest task that nobody has a lease on; the lease is the time at
which the task was taken, and lasts until the horizon passes it.  Only who
holds the lease may record a result, and only while the task is pending.
-/

namespace LintPatrol

open Time

/-! ## Rows of tasks -/

/-- What is said about the status: only failures have a comment. -/
def TaskResult.keptComment (r : TaskResult) : Option String :=
  match r.status with
  | .failed | .pending => r.comment
  | .succeeded | .skipped => none

namespace TaskRow

/-- Can the task be taken, leases up to the horizon having ended? -/
def isClaimable (horizon : Int) (t : TaskRow) : Bool :=
  t.status = .pending &&
    match t.lockedAt with
    | none => true
    | some l => l ≤ horizon

def lease (now : Instant) (t : TaskRow) : TaskRow := { t with lockedAt := some now.millis }

/-- Is the task pending under the lease that `held` was taken with? -/
def isLeasedAs (held : Task) (t : TaskRow) : Bool :=
  t.id = held.id && t.status = .pending &&
    match t.lockedAt, held.lockedAt with
    | some l, some h => l = h.millis
    | _, _ => false

/-- The row of a task once a result has been recorded. -/
def finish (r : TaskResult) (completedAt : Instant) (t : TaskRow) : TaskRow :=
  { t with
    status := r.status
    comment := r.keptComment
    durationMs := some (storedMillis r.duration)
    lintedAt := some completedAt.millis }

/-- May the task be listed before the other one?  The newest task comes first;
tasks created at one time come in the order of their names. -/
def isListedBefore (a b : TaskRow) : Bool :=
  b.createdAt < a.createdAt || (a.createdAt = b.createdAt && !(b.id < a.id : Bool))

end TaskRow

/-- The oldest of some tasks. -/
def oldest? : List TaskRow → Option TaskRow
  | [] => none
  | t :: ts =>
    match oldest? ts with
    | none => some t
    | some u => if u.isBefore t then some u else some t

namespace Store

/-! ## Adding tasks -/

/-- What is reported of a task whose name is in use. -/
def nameInUse : Failure :=
  ⟨"Failed to insert lint task",
    ["UNIQUE constraint failed: lint_tasks.lint_id",
      "Error code 1555: A PRIMARY KEY constraint failed"]⟩

/-- Adds a task to be run, created now. -/
def tryAdd (t : Task) (now : Instant) (s : Store) : Except StoreError Unit × Store :=
  if s.tasks.any (·.fingerprint = t.fingerprint) then (.error (.duplicateTask t.fingerprint), s)
  else if s.tasks.any (·.id = t.id) then (.error (.database nameInUse), s)
  else (.ok (), { s with tasks := s.tasks ++ [TaskRow.fresh t now] })

/-! ## Taking tasks -/

def next? (s : Store) (horizon : Int) : Option TaskRow :=
  oldest? (s.tasks.filter (·.isClaimable horizon))

def updateTask (id : String) (f : TaskRow → TaskRow) (s : Store) : Store :=
  { s with tasks := s.tasks.map fun t => if t.id = id then f t else t }

/-- Takes the oldest task whose lease, if any, does not lie beyond the horizon;
the new lease begins now. -/
def tryTake (horizon now : Instant) (s : Store) : Except StoreError Task × Store :=
  match s.next? horizon.millis with
  | none => (.error .noTasksAvailable, s)
  | some t => (.ok (t.lease now).read, s.updateTask t.id (·.lease now))

/-! ## Recording results -/

/-- Records the result of a task that has been taken. -/
def set (t : Task) (r : TaskResult) (completedAt : Instant) (s : Store) :
    Except StoreError Unit × Store :=
  if r.status = .pending ∧ r.findings ≠ [] then
    (.error (.database (.plain
      ("Pending result for task " ++ t.id ++ " cannot carry highlights"))), s)
  else if s.tasks.any (·.isLeasedAs t) then
    let finished := s.updateTask t.id (·.finish r completedAt)
    (.ok (), { finished with findings := s.findings ++ r.findings.map (FindingRow.fresh t.id) })
  else if s.tasks.any fun u => u.id = t.id && u.status = .pending then (.error (.leaseLost t.id), s)
  else (.error (.notPending t.id), s)

/-! ## Looking at tasks -/

def getTask (s : Store) (id : String) : Option Task := (s.tasks.find? (·.id = id)).map TaskRow.read

/-- A limit on the length of a list; one of 64 bits with the highest bit set
is none. -/
def limited {α : Type} (limit : UInt64) (xs : List α) : List α :=
  if limit < 0x8000000000000000 then xs.take limit.toNat else xs

/-- The rows of the newest tasks, perhaps of one status only. -/
def taskRows (s : Store) (status : Option TaskStatus) (limit : UInt64) : List TaskRow :=
  limited limit
    ((s.tasks.filter fun t => status.all (t.status = ·)).mergeSort TaskRow.isListedBefore)

/-- The newest tasks, perhaps of one status only. -/
def listTasks (s : Store) (status : Option TaskStatus) (limit : UInt64) : List Task :=
  (s.taskRows status limit).map TaskRow.read

end Store

end LintPatrol
