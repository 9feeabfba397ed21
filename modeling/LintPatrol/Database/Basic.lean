import LintPatrol.Database.Cell
import LintPatrol.Store.Moderation

/-!
# LintPatrol.Database.Basic

A database file: a store, and the cells of it that somebody has put something
into that does not belong there.  Such a cell is noticed when its row is
read; the columns of a row are read in a fixed order, and the first fault is
reported.
-/

namespace LintPatrol

/-- A row of the file: a repository, a linter or a task of some name, or the finding
at a place in the order of findings. -/
inductive RowRef where
  | repo (id : String)
  | linter (id : String)
  | task (id : String)
  | finding (index : Nat)
deriving Repr, DecidableEq

/-- A cell that holds what does not belong there. -/
structure Damage where
  row : RowRef
  column : String
  cell : Cell
deriving Repr, DecidableEq

/-- A database file. -/
structure Database where
  store : Store
  damage : List Damage
deriving Repr, Inhabited

namespace Database

/-- The file of a store. -/
def ofStore (s : Store) : Database := ⟨s, []⟩

def cell? (d : Database) (row : RowRef) (column : String) : Option Cell :=
  (d.damage.find? fun x => x.row = row && x.column = column).map (·.cell)

/-- Is one of those cells damaged? -/
def isDamaged (d : Database) (row : RowRef) (columns : List String) : Bool :=
  d.damage.any fun x => x.row = row && columns.contains x.column

/-- The file once those cells have been written again. -/
def mend (row : RowRef) (columns : List String) (d : Database) : Database :=
  { d with damage := d.damage.filter fun x => !(x.row = row && columns.contains x.column) }

/-- The file once those rows are gone. -/
def forget (row : RowRef) (d : Database) : Database :=
  { d with damage := d.damage.filter (·.row ≠ row) }

/-! ## Damaging -/

/-- Puts a cell into a row, or notes that the row cannot take it. -/
def putCell {α : Type} (row : RowRef) (column : String) (c : Cell) (withCell? : Option α) (old : α)
    (d : Database) : α × Database :=
  let mended := d.mend row [column]
  match withCell? with
  | some r => (r, mended)
  | none => (old, { mended with damage := ⟨row, column, c⟩ :: mended.damage })

/-- Puts a cell into every row that is hit. -/
def putCells {α : Type} (rowOf : α → Nat → RowRef) (hit : α → Bool)
    (withCell? : α → Option α) (column : String) (c : Cell) :
    List α → Nat → Database → Nat × List α × Database
  | [], _, d => (0, [], d)
  | r :: rs, i, d =>
    let (r', d) := if hit r then putCell (rowOf r i) column c (withCell? r) r d else (r, d)
    let (n, rs', d) := putCells rowOf hit withCell? column c rs (i + 1) d
    (if hit r then n + 1 else n, r' :: rs', d)

/-- Puts a cell into a column of all rows of a table that belong to a name;
says how many there are. -/
def overwrite (table key column : String) (c : Cell) (d : Database) : Nat × Database :=
  let c := c.settle column
  let s := d.store
  match table with
  | "repos" =>
    let (n, rows, d) :=
      putCells (fun r _ => .repo r.id) (·.id = key) (·.withCell? column c) column c s.repos 0 d
    (n, { d with store := { s with repos := rows } })
  | "linters" =>
    let (n, rows, d) :=
      putCells (fun r _ => .linter r.id) (·.id = key) (·.withCell? column c) column c s.linters 0 d
    (n, { d with store := { s with linters := rows } })
  | "lint_tasks" =>
    let (n, rows, d) :=
      putCells (fun r _ => .task r.id) (·.id = key) (·.withCell? column c) column c s.tasks 0 d
    (n, { d with store := { s with tasks := rows } })
  | "lint_highlights" =>
    let (n, rows, d) :=
      putCells (fun _ i => .finding i) (·.taskId = key) (·.withCell? column c) column c
        s.findings 0 d
    (n, { d with store := { s with findings := rows } })
  | _ => (0, d)

/-! ## Reading rows -/

/-- One look at a cell while a row is read. -/
structure Check where
  index : Nat
  row : RowRef
  column : String
  /-- For a name that is looked up: what is reported of an unknown one. -/
  unknown : Option (String → String)

/-- Looks at whether cells of some columns hold what can be read. -/
def kinds (row : RowRef) (index : Nat) (columns : List String) : List Check :=
  columns.zipIdx.map fun (c, i) => ⟨index + i, row, c, none⟩

/-- What is wrong with a cell. -/
def Check.fault? (d : Database) (k : Check) : Option Failure :=
  match d.cell? k.row k.column, k.unknown with
  | some (.text s), some unknown =>
    some ⟨"Conversion error from type Text at index: " ++ toString k.index ++ ", " ++ unknown s,
      [unknown s]⟩
  | some c, none =>
    if c.text?.isSome && !Cell.numberColumns.contains k.column then none
    else
      some (.plain
        ("Invalid column type " ++ c.kind ++ " at index: " ++ toString k.index ++ ", name: " ++
          k.column))
  | _, _ => none

/-- What a row stands for, unless a look at its cells finds a fault. -/
def read {α : Type} (d : Database) (outer : String) (checks : List Check) (value : α) :
    Except Failure α :=
  match checks.findSome? (·.fault? d) with
  | some f => .error (f.within outer)
  | none => .ok value

/-- How the row of a repository is read. -/
def repoChecks (r : RepoRow) : List Check :=
  kinds (.repo r.id) 0 ["repo_id", "repo_git_url", "repo_git_branch", "repo_last_git_commit_hash"]

/-- How the row of a linter is read. -/
def linterChecks (r : LinterRow) : List Check :=
  kinds (.linter r.id) 0
    ["linter_id", "linter_git_url", "linter_git_branch", "linter_last_docker_image",
      "linter_last_docker_sha_hash"]

/-- How the row of a task is read. -/
def taskChecks (t : TaskRow) : List Check :=
  let row := RowRef.task t.id
  kinds row 7 ["lint_status"] ++
    kinds row 0
      ["lint_id", "linter_id", "linter_docker_image", "linter_docker_sha_hash", "repo_id",
        "repo_git_url", "repo_git_commit_hash"] ++
    [⟨7, row, "lint_status", some TaskStatus.unknown⟩] ++
    kinds row 8
      ["lint_status_comment", "lint_duration_ms", "created_at", "locked_at", "linted_at"]

/-- How the row of a finding is read with that of its task. -/
def findingChecks (t : TaskRow) (index : Nat) : List Check :=
  let task := RowRef.task t.id
  let row := RowRef.finding index
  kinds row 11 ["moderation_status"] ++ kinds row 13 ["moderated_at"] ++ kinds row 0 ["lint_id"] ++
    kinds task 1 ["repo_id", "linter_id", "repo_git_commit_hash"] ++
    kinds row 4
      ["path", "start_line", "end_line", "explanation", "snippet_start_line", "snippet_end_line",
        "snippet_code"] ++
    [⟨11, row, "moderation_status", some Verdict.unknown⟩] ++
    kinds row 12 ["moderator"] ++ kinds row 14 ["moderation_comment"]

/-- How the row of a finding is read for the statistics. -/
def statsChecks (t : TaskRow) (index : Nat) : List Check :=
  let task := RowRef.task t.id
  let row := RowRef.finding index
  kinds row 5 ["moderation_status"] ++ [⟨5, row, "moderation_status", some Verdict.unknown⟩] ++
    kinds task 1 ["repo_id"] ++ kinds row 2 ["path", "start_line", "end_line"] ++
    kinds task 0 ["linter_id"]

end Database

end LintPatrol
