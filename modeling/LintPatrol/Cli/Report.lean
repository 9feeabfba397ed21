import LintPatrol.Codec.Finding
import LintPatrol.Failure
import LintPatrol.Json.Writer
import LintPatrol.Store.Moderation
import LintPatrol.Task.Basic
import LintPatrol.Number.Binary64

/-!
# LintPatrol.Cli.Report

What commands print: tables with a line of heads, findings in JSON, and the
reports of failures.  A table has columns: a text is filled up with blanks to a
width counted in characters, and one that is too wide stands as it is.
-/

namespace LintPatrol

/-! ## Columns -/

namespace Text

/-- The blanks that fill a text up to a width. -/
def filling (width : Nat) (s : String) : String :=
  String.ofList (List.replicate (width - s.length) ' ')

def atLeft (width : Nat) (s : String) : String := s ++ filling width s

def atRight (width : Nat) (s : String) : String := filling width s ++ s

def row (columns : List String) : String := " ".intercalate columns

end Text

namespace Time.Duration

open Number

/-- The seconds as a floating point number, the part below one second added to the
whole ones. -/
def inSeconds (d : Duration) : Binary64 :=
  (Binary64.ofInt d.seconds).add
    ((Binary64.ofInt d.subNanos).div (Binary64.ofInt nanosPerSecond))

def secondsText (d : Duration) : String := d.inSeconds.fixed 1 ++ "s"

end Time.Duration

open Text

def printed (lines : List String) : String := String.join (lines.map (· ++ "\n"))

/-! ## Failures -/

/-- The lines of a text, each further in. -/
def indented (first others text : String) : String :=
  match (splitAt '\n' text.toList).map String.ofList with
  | [] => first
  | l :: ls => String.join ((first ++ l) :: ls.map fun l => "\n" ++ others ++ l)

/-- The failure over several lines.  Several causes are numbered. -/
def Failure.report (f : Failure) : String :=
  let causes : List String :=
    match f.causes with
    | [] => []
    | [cause] => [indented "    " "    " cause]
    | several =>
      several.zipIdx.map fun (cause, i) =>
        indented (atRight 5 (toString i) ++ ": ") "       " cause
  let explanation :=
    if causes.isEmpty then "" else "\n\nCaused by:" ++ String.join (causes.map ("\n" ++ ·))
  "Error: " ++ f.message ++ explanation ++ "\n"

/-! ## Tables -/

def repoLine (id url branch commit : String) : String :=
  row [atLeft 20 id, atLeft 50 url, atLeft 16 branch, commit]

/-- The table of repositories. -/
def repoTable : List Repo → String
  | [] => printed ["No repos tracked."]
  | repos =>
    printed (repoLine "ID" "URL" "BRANCH" "COMMIT" ::
      repos.map fun r =>
        repoLine r.source.id r.source.url r.source.branch ((r.revision?.map (·.commit)).getD "-"))

def linterLine (id url image : String) : String := row [atLeft 20 id, atLeft 50 url, image]

/-- The table of linters. -/
def linterTable : List Linter → String
  | [] => printed ["No linters registered."]
  | linters =>
    printed (linterLine "ID" "URL" "IMAGE" ::
      linters.map fun l =>
        linterLine l.source.id l.source.url ((l.image?.map (·.reference)).getD "-"))

/-- The line of a task, or of heads. -/
def taskLine (id status repo linter commit duration : String) : String :=
  row [atLeft 36 id, atLeft 10 status, atLeft 16 repo, atLeft 16 linter, atLeft 12 commit,
    atRight 10 duration]

/-- The lines of a task: what is said about its status stands below. -/
def taskLines (t : Task) : List String :=
  taskLine t.id t.status.name t.repo.id t.linter.id (String.ofList (t.repo.commit.toList.take 12))
      ((t.duration.map (·.secondsText)).getD "-") ::
    (t.comment.map ("    " ++ ·)).toList

/-- The table of tasks. -/
def taskTable : List Task → String
  | [] => printed ["No lint tasks."]
  | tasks =>
    printed (taskLine "ID" "STATUS" "REPO" "LINTER" "COMMIT" "DURATION" :: tasks.flatMap taskLines)

/-- The line of the statistics of a linter, or of heads. -/
def statsLine (id total accepted pending rejected : String) : String :=
  row (atLeft 20 id :: [total, accepted, pending, rejected].map (atRight 8))

/-- The table of statistics. -/
def statsTable : List LinterStats → String
  | [] => printed ["No linters registered."]
  | stats =>
    printed (statsLine "LINTER" "TOTAL" "ACCEPTED" "PENDING" "REJECTED" ::
      stats.map fun s =>
        statsLine s.linterId (toString s.total) (toString s.accepted) (toString s.pending)
          (toString s.rejected))

/-! ## Findings -/

def findingsText (findings : List StoredFinding) : String :=
  printed [(Json.arr (findings.map Codec.ofStoredFinding)).pretty]

def placeText (path : String) (startLine endLine : UInt64) : String :=
  path ++ ":" ++ toString startLine ++ "-" ++ toString endLine

end LintPatrol
