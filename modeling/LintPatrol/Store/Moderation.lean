import LintPatrol.Store.Queue

/-!
# LintPatrol.Store.Moderation

Findings and the verdicts on them.  Runs of later revisions find the same
places again, so a place is shown once: with the highest verdict that any
finding there has, and of the findings with that verdict the newest one.
-/

namespace LintPatrol

/-- A place in a repository. -/
structure Location where
  repoId : String
  path : String
  startLine : UInt64
  endLine : UInt64
deriving Repr, DecidableEq

namespace Location

/-- Does the place come before the other one? -/
def isBefore (a b : Location) : Bool :=
  a.repoId < b.repoId ||
    (a.repoId = b.repoId &&
      (a.path < b.path ||
        (a.path = b.path &&
          (a.startLine < b.startLine ||
            (a.startLine = b.startLine && a.endLine < b.endLine)))))

end Location

def StoredFinding.location (f : StoredFinding) : Location :=
  ⟨f.repoId, f.finding.highlight.path, f.finding.highlight.startLine, f.finding.highlight.endLine⟩

/-- Which findings are asked for; what is left open does not matter. -/
structure FindingFilter where
  taskId : Option String
  linterId : Option String
  repoId : Option String
  status : Option Verdict
deriving Repr, DecidableEq, Inhabited

/-- Is the finding one that is asked for, whatever the verdict? -/
def FindingFilter.admits (q : FindingFilter) (t : TaskRow) (r : FindingRow) : Bool :=
  q.taskId.all (r.taskId = ·) && q.linterId.all (t.linter.id = ·) && q.repoId.all (t.repo.id = ·)

/-- How the places that a linter has found stand: how many there are, and how many
nobody has judged, are problems, and are none. -/
structure LinterStats where
  linterId : String
  total : Nat
  pending : Nat
  accepted : Nat
  rejected : Nat
deriving Repr, DecidableEq, Inhabited

namespace Store

/-! ## Findings with their tasks -/

/-- Every finding with its task, in the order in which they were stored. -/
def reported (s : Store) : List (TaskRow × FindingRow) :=
  s.findings.filterMap fun r => (s.tasks.find? (·.id = r.taskId)).map (·, r)

/-- Every finding with its task, those of older tasks first. -/
def reportedByAge (s : Store) : List (TaskRow × FindingRow) :=
  s.reported.mergeSort fun a b => a.1.createdAt ≤ b.1.createdAt

/-! ## One finding for each place -/

/-- Which of two findings at one place is shown, the second being the newer
one. -/
def shown (old new : StoredFinding) : StoredFinding :=
  if new.moderation.status < old.moderation.status then old else new

/-- One finding for each place, given the findings from the oldest on. -/
def collapse (fs : List StoredFinding) : List StoredFinding :=
  fs.foldl
    (fun seen f => putRow (·.location = f.location) (fun old => (old.map (shown · f)).getD f) seen)
    []

/-- The findings asked for, one for each place, in the order of places. -/
def places (fs : List StoredFinding) : List StoredFinding :=
  (collapse fs).mergeSort fun a b => !(b.location.isBefore a.location)

/-- The findings that are asked for, in the order of their places. -/
def listFindings (s : Store) (q : FindingFilter) : List StoredFinding :=
  (places ((s.reportedByAge.filter fun (t, r) => q.admits t r).map fun (t, r) => r.read t)).filter
    fun f => q.status.all (f.moderation.status = ·)

/-- Gives a verdict on a place of a task; says how many findings it is on. -/
def moderate (taskId path : String) (startLine endLine : UInt64) (m : Moderation) (s : Store) :
    Nat × Store :=
  (s.findings.countP (·.isAt taskId path startLine endLine),
    { s with
      findings := s.findings.map fun r =>
        if r.isAt taskId path startLine endLine then r.judge m else r })

/-! ## Statistics -/

/-- The highest verdict at each place. -/
def highest (fs : List StoredFinding) : List (Location × Verdict) :=
  fs.foldl
    (fun seen f =>
      putRow (·.1 = f.location)
        (fun old => (f.location, max ((old.map (·.2)).getD .rejected) f.moderation.status)) seen)
    []

/-- The statistics of a linter, given all that it has found. -/
def statsOf (linterId : String) (fs : List StoredFinding) : LinterStats :=
  let verdicts := (highest fs).map (·.2)
  { linterId
    total := verdicts.length
    pending := verdicts.count .pending
    accepted := verdicts.count .accepted
    rejected := verdicts.count .rejected }

/-- May the statistics be listed before the other ones?  Linters that find
most come first. -/
def statsOrder (a b : LinterStats) : Bool :=
  b.accepted < a.accepted ||
    (a.accepted = b.accepted &&
      (b.pending < a.pending ||
        (a.pending = b.pending &&
          (a.rejected < b.rejected ||
            (a.rejected = b.rejected && !(b.linterId < a.linterId : Bool))))))

def linterIds (s : Store) : List String :=
  (s.linters.map (·.id) ++ s.reported.map (·.1.linter.id)).eraseDups

/-- The statistics of all linters. -/
def linterStats (s : Store) : List LinterStats :=
  (s.linterIds.map fun id =>
    statsOf id ((s.reported.filter (·.1.linter.id = id)).map fun (t, r) => r.read t)).mergeSort
      statsOrder

end Store

end LintPatrol
