import LintPatrol.Database.Basic

/-!
# LintPatrol.Database.Operations

The operations of the store on a database file.  A file without damaged cells
behaves like its store.  A damaged cell equals nothing that is looked for, is
newer than everything where rows are ordered by age, and makes the reading of
its row fail; it is gone once its column is written.
-/

namespace LintPatrol.Database

open Time

def fingerprintColumns : List String :=
  ["repo_git_commit_hash", "linter_id", "linter_docker_sha_hash"]

/-- An operation on the store with some tasks out of its reach. -/
def without {α : Type} (aside : TaskRow → Bool) (op : Store → α × Store) (d : Database) :
    α × Database :=
  let (kept, reached) := d.store.tasks.partition aside
  let (a, s) := op { d.store with tasks := reached }
  (a, { d with store := { s with tasks := kept ++ s.tasks } })

def taskDamaged (d : Database) (columns : List String) (t : TaskRow) : Bool :=
  d.isDamaged (.task t.id) columns

/-- The rows that a name can be looked up in: those whose name is readable. -/
def named {α : Type} (d : Database) (rowOf : α → RowRef) (column : String) (rows : List α) :
    List α :=
  rows.filter fun r => !(d.isDamaged (rowOf r) [column])

/-! ## Repositories and linters -/

def listRepos (d : Database) : Except Failure (List Repo) :=
  d.store.repoRows.mapM fun r => d.read "Failed to read repo row" (repoChecks r) r.read

/-- The repository of that name. -/
def getRepo (d : Database) (id : String) : Except Failure (Option Repo) :=
  ((d.named (RowRef.repo ·.id) "repo_id" d.store.repos).find? (·.id = id)).mapM fun r =>
    d.read "Failed to get repo" (repoChecks r) r.read

/-- Stores a repository under its name. -/
def putRepo (repo : Repo) (d : Database) : Database :=
  let row := RowRef.repo repo.source.id
  let moved := d.isDamaged row ["repo_git_url", "repo_git_branch"]
  let old : Store :=
    if moved then
      { d.store with
        repos := d.store.repos.map fun r =>
          if r.id = repo.source.id then { r with commit := none } else r }
    else d.store
  let kept :=
    !moved && repo.revision?.isNone &&
      old.repos.any fun r =>
        r.id = repo.source.id && r.url = repo.source.url && r.branch = repo.source.branch
  let written :=
    ["repo_git_url", "repo_git_branch"] ++ if kept then [] else ["repo_last_git_commit_hash"]
  { d.mend row written with store := old.putRepo repo }

/-- Removes the repository of that name; says whether there was one. -/
def deleteRepo (id : String) (d : Database) : Bool × Database :=
  if d.isDamaged (.repo id) ["repo_id"] then (false, d)
  else
    let (found, s) := d.store.deleteRepo id
    (found, { d.forget (.repo id) with store := s })

def listLinters (d : Database) : Except Failure (List Linter) :=
  d.store.linterRows.mapM fun r => d.read "Failed to read linter row" (linterChecks r) r.read

/-- The linter of that name. -/
def getLinter (d : Database) (id : String) : Except Failure (Option Linter) :=
  ((d.named (RowRef.linter ·.id) "linter_id" d.store.linters).find? (·.id = id)).mapM fun r =>
    d.read "Failed to get linter" (linterChecks r) r.read

/-- Stores a linter under its name. -/
def putLinter (linter : Linter) (d : Database) : Database :=
  let written :=
    ["linter_git_url", "linter_git_branch"] ++
      if linter.image?.isSome then ["linter_last_docker_image", "linter_last_docker_sha_hash"]
      else []
  { d.mend (.linter linter.source.id) written with store := d.store.putLinter linter }

/-- Removes the linter of that name; says whether there was one. -/
def deleteLinter (id : String) (d : Database) : Bool × Database :=
  if d.isDamaged (.linter id) ["linter_id"] then (false, d)
  else
    let (found, s) := d.store.deleteLinter id
    (found, { d.forget (.linter id) with store := s })

/-! ## The queue -/

/-- Adds a task to be run, created now.  A row without a readable fingerprint
still holds its name. -/
def tryAdd (t : Task) (now : Instant) (d : Database) : Except StoreError Unit × Database :=
  let unmarked := d.taskDamaged fingerprintColumns
  match d.without unmarked (Store.tryAdd t now) with
  | (.ok (), added) =>
    if d.store.tasks.any fun u => unmarked u && u.id = t.id then
      (.error (.database Store.nameInUse), d)
    else (.ok (), added)
  | refused => refused

/-- Takes a task whose row can be trusted as far as taking is concerned; one
whose row cannot be read is taken as well, and the reading fails. -/
def tryTake (horizon now : Instant) (d : Database) : Except StoreError Task × Database :=
  let hidden := d.taskDamaged ["lint_status", "locked_at"]
  let ageless := d.taskDamaged ["created_at"]
  let (taken, d) :=
    match d.without (fun t => hidden t || ageless t) (Store.tryTake horizon now) with
    | (.error .noTasksAvailable, d) => d.without hidden (Store.tryTake horizon now)
    | r => r
  match taken with
  | .error e => (.error e, d)
  | .ok t =>
    match d.store.tasks.find? (·.id = t.id) with
    | none => (.ok t, d)
    | some row =>
      ((d.read "Failed to lease lint task" (taskChecks row) t).mapError StoreError.database, d)

/-- Records the result of a task that has been taken. -/
def set (t : Task) (r : TaskResult) (completedAt : Instant) (d : Database) :
    Except StoreError Unit × Database :=
  let row := RowRef.task t.id
  let unlocked : Database :=
    { d with
      store :=
        { d.store with
          tasks := d.store.tasks.map fun u =>
            if d.taskDamaged ["locked_at"] u then { u with lockedAt := none } else u } }
  let apart := d.taskDamaged ["lint_id", "lint_status"]
  match unlocked.without apart (Store.set t r completedAt) with
  | (.ok (), d) => (.ok (), d.mend row ["lint_status_comment", "lint_duration_ms", "linted_at"])
  | (.error (.notPending id), _) =>
    if d.isDamaged row ["lint_id"] then (.error (.notPending id), d)
    else
      match d.read "Failed to read lint task status" (kinds row 0 ["lint_status"]) () with
      | .error f => (.error (.database f), d)
      | .ok () => (.error (.notPending id), d)
  | (.error e, _) => (.error e, d)

/-- The task of that name. -/
def getTask (d : Database) (id : String) : Except Failure (Option Task) :=
  ((d.named (RowRef.task ·.id) "lint_id" d.store.tasks).find? (·.id = id)).mapM fun t =>
    d.read "Failed to get lint task" (taskChecks t) t.read

/-- The newest tasks, perhaps of one status only. -/
def listTasks (d : Database) (status : Option TaskStatus) (limit : UInt64) :
    Except Failure (List Task) :=
  let reached := d.store.tasks.filter fun t => status.isNone || !(d.taskDamaged ["lint_status"] t)
  let (ageless, dated) := reached.partition (d.taskDamaged ["created_at"])
  let rows (ts : List TaskRow) : List TaskRow :=
    { d.store with tasks := ts }.taskRows status 0x8000000000000000
  (Store.limited limit (rows ageless ++ rows dated)).mapM fun t =>
    d.read "Failed to read lint task row" (taskChecks t) t.read

/-! ## Findings -/

/-- Every finding with its task and its place in the order of findings. -/
def reported (d : Database) : List (TaskRow × FindingRow × Nat) :=
  d.store.findings.zipIdx.filterMap fun (r, i) =>
    if d.isDamaged (.finding i) ["lint_id"] then none
    else
      ((d.store.tasks.filter fun t => !(d.taskDamaged ["lint_id"] t)).find? (·.id = r.taskId)).map
        (·, r, i)

/-- Is the finding one that is asked for, as far as the cells say? -/
def admits (d : Database) (q : FindingFilter) (t : TaskRow) (r : FindingRow) : Bool :=
  q.admits t r &&
    !(q.linterId.isSome && d.taskDamaged ["linter_id"] t) &&
      !(q.repoId.isSome && d.taskDamaged ["repo_id"] t)

/-- The findings that are asked for, in the order of their places. -/
def listFindings (d : Database) (q : FindingFilter) : Except Failure (List StoredFinding) := do
  let (ageless, dated) := d.reported.partition fun (t, _) => d.taskDamaged ["created_at"] t
  let byAge := dated.mergeSort (fun a b => a.1.createdAt ≤ b.1.createdAt) ++ ageless
  let found ←
    (byAge.filter fun (t, r, _) => d.admits q t r).mapM fun (t, r, i) =>
      d.read "Failed to read highlight row" (findingChecks t i) (r.read t)
  return (Store.places found).filter fun f => q.status.all (f.moderation.status = ·)

/-- Gives a verdict on a place of a task; says how many findings it is on. -/
def moderate (taskId path : String) (startLine endLine : UInt64) (m : Moderation) (d : Database) :
    Nat × Database :=
  let isHit (r : FindingRow) (i : Nat) : Bool :=
    r.isAt taskId path startLine endLine &&
      !(d.isDamaged (.finding i) ["lint_id", "path", "start_line", "end_line"])
  let hits := (d.store.findings.zipIdx.filter fun (r, i) => isHit r i).map (·.2)
  let mended :=
    hits.foldl
      (fun d i =>
        d.mend (.finding i)
          ["moderation_status", "moderator", "moderated_at", "moderation_comment"])
      d
  (hits.length,
    { mended with
      store :=
        { d.store with
          findings := d.store.findings.zipIdx.map fun (r, i) =>
            if hits.contains i then r.judge m else r } })

/-- The statistics of all linters. -/
def linterStats (d : Database) : Except Failure (List LinterStats) := do
  let _ ← d.listLinters
  let _ ←
    d.reported.mapM fun (t, _, i) =>
      d.read "Failed to read linter stats row" (statsChecks t i) ()
  return d.store.linterStats

end LintPatrol.Database
