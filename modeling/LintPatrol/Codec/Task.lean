import LintPatrol.Codec.Finding
import LintPatrol.Codec.Registry
import LintPatrol.Task.Basic

/-!
# LintPatrol.Codec.Task

Tasks in JSON.  A duration is a record of seconds and nanoseconds that admits
no other field.
-/

namespace LintPatrol.Codec

open Json Time

def ofTaskStatus (s : TaskStatus) : Json := .str s.name

def taskStatus? (v : Json) : Option TaskStatus := (variant? v).bind TaskStatus.ofName?

def ofDuration (d : Duration) : Json := .obj [("secs", .int d.seconds), ("nanos", .int d.subNanos)]

/-- Reads an unsigned integer of 32 bits. -/
def uint32? : Json → Option Nat
  | .int n => if 0 ≤ n ∧ n < 0x100000000 then some n.toNat else none
  | _ => none

/-- Has an object only the named members? -/
def onlyFields (names : List String) : Json → Bool
  | .obj members => members.all fun m => names.contains m.1
  | _ => true

/-- Reads a duration; whole seconds among the nanoseconds carry over. -/
def duration? (v : Json) : Option Duration := do
  if onlyFields ["secs", "nanos"] v then
    match ← fields .exact ["secs", "nanos"] v with
    | [s, n] => Duration.ofParts? (← required uint64? s).toNat (← required uint32? n)
    | _ => none
  else none

/-- A duration, or `null`. -/
def ofDuration? : Option Duration → Json
  | some d => ofDuration d
  | none => .null

/-- A task. -/
def ofTask (t : Task) : Json :=
  .obj
    [("id", .str t.id), ("linter", ofLinterImage t.linter), ("repo", ofRepoRevision t.repo),
     ("status", ofTaskStatus t.status), ("status_comment", ofStr? t.comment),
     ("duration", ofDuration? t.duration), ("created_at", ofInstant t.createdAt),
     ("locked_at", ofInstant? t.lockedAt), ("linted_at", ofInstant? t.lintedAt)]

/-- Reads a task. -/
def task? (v : Json) : Option Task := do
  match ← fields .exact
      ["id", "linter", "repo", "status", "status_comment", "duration", "created_at", "locked_at",
        "linted_at"] v with
  | [id, linter, repo, status, comment, duration, created, locked, linted] =>
    pure
      { id := ← required str? id
        linter := ← required linterImage? linter
        repo := ← required repoRevision? repo
        status := ← required taskStatus? status
        comment := ← optional str? comment
        duration := ← optional duration? duration
        createdAt := ← required instant? created
        lockedAt := ← optional instant? locked
        lintedAt := ← optional instant? linted }
  | _ => none

end LintPatrol.Codec
