import LintPatrol.Chain.Report
import LintPatrol.Scope.Wait

/-!
# LintPatrol.Chain.Inbox

What is on its way to one place of a chain.  Each job is sent by a task of its
own, the tasks may run in any order, and the channel has room for one job.  A
job knows by its ticket which of the items it is that were produced along with
it, and by its ticket it is reported on.
-/

namespace LintPatrol.Chain

/-- An item with the scope it is to be worked on in.  The ticket says how many items
were produced before along with it. -/
structure Job (α : Type) where
  item : α
  scope : Scope
  ticket : Nat
deriving Repr, DecidableEq

/-- A report on a job. -/
structure Completion where
  ticket : Nat
  report : Option Report
deriving Repr, Inhabited

/-- What is reported of a job that is dropped. -/
def Job.drop {α : Type} (job : Job α) : Completion := ⟨job.ticket, some Report.dropped⟩

/-- What is on its way to a place of the chain: the jobs that are still to be sent,
and the one that has been sent and not been received. -/
structure Inbox (α : Type) where
  spawned : List (Job α) := []
  slot : Option (Job α) := none
deriving Repr, DecidableEq

namespace Inbox

variable {α : Type}

def jobs (b : Inbox α) : List (Job α) := b.slot.toList ++ b.spawned

def isEmpty (b : Inbox α) : Bool := b.slot.isNone && b.spawned.isEmpty

def add (b : Inbox α) (jobs : List (Job α)) : Inbox α := { b with spawned := b.spawned ++ jobs }

/-- The job with number `k` of those to be sent is sent, if there is room. -/
def send (b : Inbox α) (k : Nat) : Option (Inbox α) :=
  match b.slot, b.spawned[k]? with
  | none, some job => some ⟨b.spawned.eraseIdx k, some job⟩
  | _, _ => none

def receive (b : Inbox α) : Option (Job α × Inbox α) :=
  b.slot.map fun job => (job, { b with slot := none })

@[simp] theorem jobs_add (b : Inbox α) (jobs : List (Job α)) :
    (b.add jobs).jobs = b.jobs ++ jobs := by
  simp [Inbox.jobs, add]

/-- An inbox is empty just if no job is on its way to be sent or received. -/
theorem isEmpty_iff (b : Inbox α) : b.isEmpty = true ↔ b.jobs = [] := by
  simp [isEmpty, Inbox.jobs]

/-- A job that is received is no longer on its way. -/
theorem jobs_receive {b b' : Inbox α} {job : Job α} (h : b.receive = some (job, b')) :
    b.jobs = job :: b'.jobs := by
  obtain ⟨_, hs, ⟨⟩⟩ := Option.map_eq_some_iff.mp h
  simp [Inbox.jobs, hs]

end Inbox

end LintPatrol.Chain
