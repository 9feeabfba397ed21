import LintPatrol.Highlight.Basic
import LintPatrol.Registry.Linter
import LintPatrol.Registry.Repo
import LintPatrol.Time.Duration
import LintPatrol.Time.Instant

/-!
# LintPatrol.Task.Basic

A task is one linter image to be run on one revision of a repository.  The
same image is run on the same commit only once: commit, linter and digest
make up the *fingerprint* of a task.  Its name is a random UUID of version 4: of
128 bits the version takes four and the variant two, and the others are random.
-/

namespace LintPatrol

open Time

/-! ## Status -/

/-- How far a task has come.  One that failed was failed by its linter, one that was
skipped was declined by it. -/
inductive TaskStatus where
  /-- To be run, or run again. -/
  | pending
  | succeeded
  | failed
  | skipped
deriving Repr, DecidableEq, Inhabited

namespace TaskStatus

/-- The name of a status. -/
def name : TaskStatus → String
  | pending => "pending"
  | succeeded => "succeeded"
  | failed => "failed"
  | skipped => "skipped"

def all : List TaskStatus := [pending, succeeded, failed, skipped]

def ofName? (s : String) : Option TaskStatus := all.find? (·.name = s)

def unknown (s : String) : String := "Invalid lint status: " ++ s

def isFinal (s : TaskStatus) : Bool := s ≠ pending

/-- A status is known by its name. -/
@[simp] theorem ofName?_name (s : TaskStatus) : ofName? s.name = some s := by
  cases s <;> decide

end TaskStatus

/-! ## Names -/

namespace TaskName

/-- So many hexadecimal digits of a number, the lowest ones. -/
def digits (width n : Nat) : String :=
  String.ofList ((List.range width).map fun i => Nat.digitChar (n >>> (4 * (width - 1 - i)) % 16))

/-- The name made of 122 random bits. -/
def ofBits (n : Nat) : String :=
  digits 8 (n >>> 90) ++ "-" ++ digits 4 (n >>> 74) ++ "-4" ++ digits 3 (n >>> 62) ++ "-" ++
    digits 4 (0x8000 + n >>> 48 % 0x4000) ++ "-" ++ digits 12 n

/-- Is that the digit, or the dash, that stands at a place in a name? -/
def fits (place : Nat) (c : Char) : Bool :=
  if [8, 13, 18, 23].contains place then c = '-'
  else if place = 14 then c = '4'
  else if place = 19 then ['8', '9', 'a', 'b'].contains c
  else ('0' ≤ c && c ≤ '9') || ('a' ≤ c && c ≤ 'f')

/-- Is that a name made at random? -/
def isName (cs : List Char) : Bool := cs.length = 36 && cs.zipIdx.all fun (c, i) => fits i c

end TaskName

/-! ## Tasks -/

/-- What tells a task from all others. -/
structure Fingerprint where
  commit : String
  linterId : String
  digest : String
deriving Repr, DecidableEq, Inhabited

def Fingerprint.display (f : Fingerprint) : String :=
  f.commit ++ "/" ++ f.linterId ++ "@" ++ f.digest

/-- One linter to be run on one revision. -/
structure Task where
  id : String
  linter : LinterImage
  repo : RepoRevision
  status : TaskStatus
  comment : Option String
  duration : Option Duration
  createdAt : Instant
  lockedAt : Option Instant
  lintedAt : Option Instant
deriving Repr, DecidableEq, Inhabited

namespace Task

/-- A task to be run, as it is created. -/
def fresh (id : String) (linter : LinterImage) (repo : RepoRevision) (createdAt : Instant) : Task :=
  { id, linter, repo, createdAt
    status := .pending, comment := none, duration := none, lockedAt := none, lintedAt := none }

def fingerprint (t : Task) : Fingerprint := ⟨t.repo.commit, t.linter.id, t.linter.digest⟩

end Task

/-- The outcome of a run. -/
structure TaskResult where
  status : TaskStatus
  comment : Option String
  duration : Duration
  findings : List Finding
deriving Repr, DecidableEq

end LintPatrol
