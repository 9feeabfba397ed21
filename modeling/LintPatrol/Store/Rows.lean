import LintPatrol.Registry.Linter
import LintPatrol.Registry.Repo
import LintPatrol.Task.Basic
import LintPatrol.Task.Moderation

/-!
# LintPatrol.Store.Rows

What the store keeps of repositories, linters, tasks and findings: one row
each.  Times are kept as whole milliseconds since the beginning of 1970 and
lengths of time as whole milliseconds, all in 64 bits with sign; `read` says
what a row stands for.  A time that is no instant is read as the beginning of
1970, a negative length as none.  The number of a line, which has no sign, is
kept as the number with a sign that has the same bits.
-/

namespace LintPatrol

open Time

/-! ## Repositories and linters -/

/-- What is kept of a repository. -/
structure RepoRow where
  id : String
  url : String
  branch : String
  /-- The head as last fetched. -/
  commit : Option String
deriving Repr, DecidableEq, Inhabited

namespace RepoRow

def source (r : RepoRow) : RepoSource := ⟨r.id, r.url, r.branch⟩

/-- The repository a row stands for. -/
def read (r : RepoRow) : Repo :=
  match r.commit with
  | some c => (Repo.unresolved r.source).resolve c
  | none => .unresolved r.source

/-- The row of a repository when `old` is the row it had: a repository that
has no commit keeps the one it had, unless it has moved. -/
def update (repo : Repo) (old : Option RepoRow) : RepoRow :=
  let s := repo.source
  let kept := old.bind fun r => if r.url = s.url ∧ r.branch = s.branch then r.commit else none
  ⟨s.id, s.url, s.branch, (repo.revision?.map (·.commit)).or kept⟩

end RepoRow

/-- What is kept of a linter. -/
structure LinterRow where
  id : String
  url : String
  branch : String
  image : Option String
  digest : Option String
deriving Repr, DecidableEq, Inhabited

namespace LinterRow

def source (r : LinterRow) : LinterSource := ⟨r.id, r.url, r.branch⟩

/-- The linter a row stands for. -/
def read (r : LinterRow) : Linter :=
  match r.image, r.digest with
  | some image, some digest => .resolved r.source ⟨r.id, image, digest⟩
  | _, _ => .unresolved r.source

/-- The row of a linter when `old` is the row it had: a linter without image
keeps the image it had. -/
def update (linter : Linter) (old : Option LinterRow) : LinterRow :=
  let s := linter.source
  ⟨s.id, s.url, s.branch, (linter.image?.map (·.image)).or (old.bind (·.image)),
    (linter.image?.map (·.digest)).or (old.bind (·.digest))⟩

end LinterRow

/-! ## Tasks -/

/-- The longest length of time that is kept, in milliseconds. -/
def maxStoredMillis : Nat := 0x7FFFFFFFFFFFFFFF

def storedMillis (d : Duration) : Int := min d.millis maxStoredMillis

/-- The length of time that is kept as that many milliseconds. -/
def durationOfStored (ms : Int) : Duration := Duration.ofMillis (UInt64.ofNat ms.toNat)

/-- What is kept of a task. -/
structure TaskRow where
  id : String
  linter : LinterImage
  repo : RepoRevision
  status : TaskStatus
  comment : Option String
  durationMs : Option Int
  createdAt : Int
  /-- When the latest lease began. -/
  lockedAt : Option Int
  lintedAt : Option Int
deriving Repr, DecidableEq, Inhabited

namespace TaskRow

/-- The row of a task that is to be run, created at some time. -/
def fresh (t : Task) (now : Instant) : TaskRow :=
  { id := t.id, linter := t.linter, repo := t.repo, status := .pending, comment := none
    durationMs := none, createdAt := now.millis, lockedAt := none, lintedAt := none }

def fingerprint (t : TaskRow) : Fingerprint := ⟨t.repo.commit, t.linter.id, t.linter.digest⟩

/-- The task a row stands for. -/
def read (t : TaskRow) : Task :=
  { id := t.id, linter := t.linter, repo := t.repo, status := t.status, comment := t.comment
    duration := t.durationMs.map durationOfStored
    createdAt := Instant.ofMillis t.createdAt
    lockedAt := t.lockedAt.map Instant.ofMillis
    lintedAt := t.lintedAt.map Instant.ofMillis }

/-- Was the task created before the other one?  Of tasks created at one time
the one with the smaller name comes first. -/
def isBefore (a b : TaskRow) : Bool :=
  a.createdAt < b.createdAt || (a.createdAt = b.createdAt && a.id < b.id)

end TaskRow

/-! ## Findings -/

/-- The number of a line as it is kept: its 64 bits, the first of them being a
sign. -/
def storedLine (n : UInt64) : Int64 := n.toInt64

/-- The number of a line that is kept as those 64 bits. -/
def lineOfStored (n : Int64) : UInt64 := n.toUInt64

@[simp] theorem lineOfStored_storedLine (n : UInt64) : lineOfStored (storedLine n) = n := rfl

@[simp] theorem storedLine_inj {m n : UInt64} : storedLine m = storedLine n ↔ m = n :=
  ⟨fun h => congrArg lineOfStored h, congrArg storedLine⟩

/-- What is kept of a finding. -/
structure FindingRow where
  taskId : String
  path : String
  startLine : Int64
  endLine : Int64
  explanation : String
  snippetStartLine : Int64
  snippetEndLine : Int64
  snippetCode : String
  verdict : Verdict
  moderator : Option String
  moderatedAt : Option Int
  comment : Option String
deriving Repr, DecidableEq, Inhabited

namespace FindingRow

/-- The row of a finding nobody has judged yet. -/
def fresh (taskId : String) (f : Finding) : FindingRow :=
  { taskId
    path := f.highlight.path
    startLine := storedLine f.highlight.startLine
    endLine := storedLine f.highlight.endLine
    explanation := f.highlight.explanation
    snippetStartLine := storedLine f.snippet.startLine
    snippetEndLine := storedLine f.snippet.endLine
    snippetCode := f.snippet.code
    verdict := .pending, moderator := none, moderatedAt := none, comment := none }

/-- The row with another verdict. -/
def judge (m : Moderation) (r : FindingRow) : FindingRow :=
  { r with
    verdict := m.status
    moderator := m.moderator
    moderatedAt := m.moderatedAt.map Instant.millis
    comment := m.comment }

/-- What was found. -/
def finding (r : FindingRow) : Finding where
  highlight := ⟨r.path, lineOfStored r.startLine, lineOfStored r.endLine, r.explanation⟩
  snippet := ⟨lineOfStored r.snippetStartLine, lineOfStored r.snippetEndLine, r.snippetCode⟩

def moderation (r : FindingRow) : Moderation :=
  ⟨r.verdict, r.moderator, r.moderatedAt.map Instant.ofMillis, r.comment⟩

/-- The finding a row stands for, found by a run of the task. -/
def read (t : TaskRow) (r : FindingRow) : StoredFinding :=
  { taskId := r.taskId, repoId := t.repo.id, linterId := t.linter.id, commit := t.repo.commit
    finding := r.finding, moderation := r.moderation }

/-- Does the row belong to that place of that task? -/
def isAt (r : FindingRow) (taskId path : String) (startLine endLine : UInt64) : Bool :=
  r.taskId = taskId && r.path = path && r.startLine = storedLine startLine &&
    r.endLine = storedLine endLine

@[simp] theorem finding_fresh (taskId : String) (f : Finding) : (fresh taskId f).finding = f := rfl

@[simp] theorem finding_judge (m : Moderation) (r : FindingRow) :
    (r.judge m).finding = r.finding := rfl

@[simp] theorem moderation_fresh (taskId : String) (f : Finding) :
    (fresh taskId f).moderation = Moderation.none := rfl

end FindingRow

end LintPatrol
