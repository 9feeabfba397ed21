import LintPatrol.Database.Cell

/-!
# LintPatrol.Database.Row

Rows as cells.  `cells` gives every cell of a row with its column, and
`ofCells?` puts a row together from cells; a column that no cell is given for
is empty.
-/

namespace LintPatrol

/-! ## Cells -/

namespace Cell

/-- Text, or nothing. -/
def ofText? : Option String → Cell
  | some s => text s
  | none => null

/-- A number, or nothing. -/
def ofInteger? : Option Int → Cell
  | some n => integer n
  | none => null

end Cell

open Cell

/-! ## Repositories and linters -/

namespace RepoRow

/-- The cells of the row. -/
def cells (r : RepoRow) : List (String × Cell) :=
  [("repo_id", text r.id), ("repo_git_url", text r.url), ("repo_git_branch", text r.branch),
    ("repo_last_git_commit_hash", ofText? r.commit)]

def ofCells? (cells : List (String × Cell)) : Option RepoRow :=
  cells.foldlM (fun r (column, c) => r.withCell? column c) default

@[simp] theorem ofCells?_cells (r : RepoRow) : ofCells? r.cells = some r := by
  obtain ⟨id, url, branch, commit⟩ := r
  cases commit <;> rfl

end RepoRow

namespace LinterRow

/-- The cells of the row. -/
def cells (r : LinterRow) : List (String × Cell) :=
  [("linter_id", text r.id), ("linter_git_url", text r.url), ("linter_git_branch", text r.branch),
    ("linter_last_docker_image", ofText? r.image),
    ("linter_last_docker_sha_hash", ofText? r.digest)]

def ofCells? (cells : List (String × Cell)) : Option LinterRow :=
  cells.foldlM (fun r (column, c) => r.withCell? column c) default

@[simp] theorem ofCells?_cells (r : LinterRow) : ofCells? r.cells = some r := by
  obtain ⟨id, url, branch, image, digest⟩ := r
  cases image <;> cases digest <;> rfl

end LinterRow

/-! ## Tasks and findings -/

namespace TaskRow

/-- The cells of the row. -/
def cells (t : TaskRow) : List (String × Cell) :=
  [("lint_id", text t.id), ("linter_id", text t.linter.id),
    ("linter_docker_image", text t.linter.image), ("linter_docker_sha_hash", text t.linter.digest),
    ("repo_id", text t.repo.id), ("repo_git_url", text t.repo.url),
    ("repo_git_commit_hash", text t.repo.commit), ("lint_status", text t.status.name),
    ("lint_status_comment", ofText? t.comment), ("lint_duration_ms", ofInteger? t.durationMs),
    ("created_at", integer t.createdAt), ("locked_at", ofInteger? t.lockedAt),
    ("linted_at", ofInteger? t.lintedAt)]

def ofCells? (cells : List (String × Cell)) : Option TaskRow :=
  cells.foldlM (fun t (column, c) => t.withCell? column c) default

end TaskRow

namespace FindingRow

/-- The cells of the row. -/
def cells (r : FindingRow) : List (String × Cell) :=
  [("lint_id", text r.taskId), ("path", text r.path), ("start_line", integer r.startLine.toInt),
    ("end_line", integer r.endLine.toInt), ("explanation", text r.explanation),
    ("snippet_start_line", integer r.snippetStartLine.toInt),
    ("snippet_end_line", integer r.snippetEndLine.toInt), ("snippet_code", text r.snippetCode),
    ("moderation_status", text r.verdict.name), ("moderator", ofText? r.moderator),
    ("moderated_at", ofInteger? r.moderatedAt), ("moderation_comment", ofText? r.comment)]

def ofCells? (cells : List (String × Cell)) : Option FindingRow :=
  cells.foldlM (fun r (column, c) => r.withCell? column c) default

end FindingRow

end LintPatrol
