import LintPatrol.Json.Record
import LintPatrol.Task.Moderation

/-!
# LintPatrol.Codec.Finding

Highlights, findings and verdicts in JSON.
-/

namespace LintPatrol.Codec

open Json Time

/-! ## Findings -/

/-- A highlight. -/
def ofHighlight (h : Highlight) : Json :=
  .obj
    [("path", .str h.path), ("start_line", ofUInt64 h.startLine), ("end_line", ofUInt64 h.endLine),
     ("explanation", .str h.explanation)]

/-- Reads a highlight. -/
def highlight? (v : Json) : Option Highlight := do
  match ← fields .exact ["path", "start_line", "end_line", "explanation"] v with
  | [path, s, e, explanation] =>
    pure
      ⟨← required str? path, ← required uint64? s, ← required uint64? e,
        ← required str? explanation⟩
  | _ => none

/-- A piece of code. -/
def ofSnippet (s : Snippet) : Json :=
  .obj
    [("start_line", ofUInt64 s.startLine), ("end_line", ofUInt64 s.endLine), ("code", .str s.code)]

/-- Reads a piece of code. -/
def snippet? (v : Json) : Option Snippet := do
  match ← fields .exact ["start_line", "end_line", "code"] v with
  | [s, e, code] => pure ⟨← required uint64? s, ← required uint64? e, ← required str? code⟩
  | _ => none

def ofFinding (f : Finding) : Json :=
  .obj [("highlight", ofHighlight f.highlight), ("snippet", ofSnippet f.snippet)]

/-- Reads a finding. -/
def finding? (v : Json) : Option Finding := do
  match ← fields .exact ["highlight", "snippet"] v with
  | [h, s] => pure ⟨← required highlight? h, ← required snippet? s⟩
  | _ => none

/-! ## Verdicts -/

/-- The name of a variant without content: a string, or an object whose only
member has that name and the value `null`. -/
def variant? : Json → Option String
  | .str s => some s
  | .obj [(name, .null)] => some name
  | _ => none

def ofVerdict (v : Verdict) : Json := .str v.name

def verdict? (v : Json) : Option Verdict := (variant? v).bind Verdict.ofName?

def ofInstant (t : Instant) : Json := .str t.text

def instant? (v : Json) : Option Instant := (str? v).bind Instant.ofText?

/-- An instant, or `null`. -/
def ofInstant? : Option Instant → Json
  | some t => ofInstant t
  | none => .null

/-- A verdict with who gave it, when and why. -/
def ofModeration (m : Moderation) : Json :=
  .obj
    [("status", ofVerdict m.status), ("moderator", ofStr? m.moderator),
     ("moderated_at", ofInstant? m.moderatedAt), ("comment", ofStr? m.comment)]

/-- Reads a verdict with who gave it, when and why. -/
def moderation? (v : Json) : Option Moderation := do
  match ← fields .exact ["status", "moderator", "moderated_at", "comment"] v with
  | [status, moderator, at_, comment] =>
    pure
      ⟨← required verdict? status, ← optional str? moderator, ← optional instant? at_,
        ← optional str? comment⟩
  | _ => none

/-- A finding as it is kept. -/
def ofStoredFinding (f : StoredFinding) : Json :=
  .obj
    [("task_id", .str f.taskId), ("repo_id", .str f.repoId), ("linter_id", .str f.linterId),
     ("commit_hash", .str f.commit), ("highlight", ofFinding f.finding),
     ("moderation", ofModeration f.moderation)]

/-- Reads a finding as it is kept. -/
def storedFinding? (v : Json) : Option StoredFinding := do
  match ← fields .exact
      ["task_id", "repo_id", "linter_id", "commit_hash", "highlight", "moderation"] v with
  | [task, repo, linter, commit, finding, moderation] =>
    pure
      ⟨← required str? task, ← required str? repo, ← required str? linter, ← required str? commit,
        ← required finding? finding, ← required moderation? moderation⟩
  | _ => none

end LintPatrol.Codec
