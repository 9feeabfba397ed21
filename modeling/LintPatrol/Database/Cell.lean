import LintPatrol.Number.Integer
import LintPatrol.Store.Rows
import LintPatrol.Text.Blank

/-!
# LintPatrol.Database.Cell

The cells of a database file.  The file does not enforce the types of its
columns: text put into a column of numbers becomes a number if it writes one,
a number put into a column of text becomes text, and all else is kept as it
is.  `RepoRow.withCell?` and its like put a cell into a row; they give no row
if the cell does not hold what belongs there.
-/

namespace LintPatrol

open Number

/-- What a cell holds. -/
inductive Cell where
  | null
  | integer (n : Int)
  | text (s : String)
  | blob (bytes : List UInt8)
deriving Repr, DecidableEq, Inhabited

namespace Cell

/-- The name of the kind of thing a cell holds. -/
def kind : Cell → String
  | null => "Null"
  | integer _ => "Integer"
  | text _ => "Text"
  | blob _ => "Blob"

/-- The columns that numbers belong into. -/
def numberColumns : List String :=
  ["created_at", "updated_at", "lint_duration_ms", "locked_at", "linted_at", "start_line",
    "end_line", "snippet_start_line", "snippet_end_line", "moderated_at"]

/-- The number of 64 bits that a text writes, blanks around it being ignored. -/
def integerText? (s : String) : Option Int := (readInt64 (Text.trim s.toList)).toOption

/-- What a cell holds once it has been put into a column. -/
def settle (column : String) (c : Cell) : Cell :=
  if numberColumns.contains column then
    match c with
    | text s => ((integerText? s).map integer).getD c
    | _ => c
  else
    match c with
    | integer n => text (toString n)
    | _ => c

/-- The text a cell holds. -/
def text? : Cell → Option String
  | text s => some s
  | _ => none

/-- The number a cell holds. -/
def integer? : Cell → Option Int
  | integer n => some n
  | _ => none

/-- The number of 64 bits with sign that a cell holds. -/
def word? (c : Cell) : Option Int64 := c.integer?.map Int64.ofInt

/-- What a cell holds that may hold nothing. -/
def orNull {α : Type} (read : Cell → Option α) (c : Cell) : Option (Option α) :=
  match c with
  | null => some none
  | _ => (read c).map some

end Cell

open Cell

/-! ## Cells of rows -/

/-- The row of a repository with another cell. -/
def RepoRow.withCell? (r : RepoRow) (column : String) (c : Cell) : Option RepoRow :=
  match column with
  | "repo_id" => c.text?.map fun s => { r with id := s }
  | "repo_git_url" => c.text?.map fun s => { r with url := s }
  | "repo_git_branch" => c.text?.map fun s => { r with branch := s }
  | "repo_last_git_commit_hash" => (c.orNull text?).map fun s => { r with commit := s }
  | _ => some r

/-- The row of a linter with another cell. -/
def LinterRow.withCell? (r : LinterRow) (column : String) (c : Cell) : Option LinterRow :=
  match column with
  | "linter_id" => c.text?.map fun s => { r with id := s }
  | "linter_git_url" => c.text?.map fun s => { r with url := s }
  | "linter_git_branch" => c.text?.map fun s => { r with branch := s }
  | "linter_last_docker_image" => (c.orNull text?).map fun s => { r with image := s }
  | "linter_last_docker_sha_hash" => (c.orNull text?).map fun s => { r with digest := s }
  | _ => some r

/-- The row of a task with another cell. -/
def TaskRow.withCell? (r : TaskRow) (column : String) (c : Cell) : Option TaskRow :=
  match column with
  | "lint_id" => c.text?.map fun s => { r with id := s }
  | "linter_id" => c.text?.map fun s => { r with linter := { r.linter with id := s } }
  | "linter_docker_image" => c.text?.map fun s => { r with linter := { r.linter with image := s } }
  | "linter_docker_sha_hash" =>
    c.text?.map fun s => { r with linter := { r.linter with digest := s } }
  | "repo_id" => c.text?.map fun s => { r with repo := { r.repo with id := s } }
  | "repo_git_url" => c.text?.map fun s => { r with repo := { r.repo with url := s } }
  | "repo_git_commit_hash" => c.text?.map fun s => { r with repo := { r.repo with commit := s } }
  | "lint_status" => (c.text?.bind TaskStatus.ofName?).map fun s => { r with status := s }
  | "lint_status_comment" => (c.orNull text?).map fun s => { r with comment := s }
  | "lint_duration_ms" => (c.orNull integer?).map fun n => { r with durationMs := n }
  | "created_at" => c.integer?.map fun n => { r with createdAt := n }
  | "locked_at" => (c.orNull integer?).map fun n => { r with lockedAt := n }
  | "linted_at" => (c.orNull integer?).map fun n => { r with lintedAt := n }
  | _ => some r

/-- The row of a finding with another cell. -/
def FindingRow.withCell? (r : FindingRow) (column : String) (c : Cell) : Option FindingRow :=
  match column with
  | "lint_id" => c.text?.map fun s => { r with taskId := s }
  | "path" => c.text?.map fun s => { r with path := s }
  | "start_line" => c.word?.map fun n => { r with startLine := n }
  | "end_line" => c.word?.map fun n => { r with endLine := n }
  | "explanation" => c.text?.map fun s => { r with explanation := s }
  | "snippet_start_line" => c.word?.map fun n => { r with snippetStartLine := n }
  | "snippet_end_line" => c.word?.map fun n => { r with snippetEndLine := n }
  | "snippet_code" => c.text?.map fun s => { r with snippetCode := s }
  | "moderation_status" => (c.text?.bind Verdict.ofName?).map fun v => { r with verdict := v }
  | "moderator" => (c.orNull text?).map fun s => { r with moderator := s }
  | "moderation_comment" => (c.orNull text?).map fun s => { r with comment := s }
  | "moderated_at" => (c.orNull integer?).map fun n => { r with moderatedAt := n }
  | _ => some r

end LintPatrol
