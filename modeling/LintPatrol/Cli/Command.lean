import LintPatrol.Cli.Grammar
import LintPatrol.Config.Text
import LintPatrol.Registry.Linter
import LintPatrol.Registry.Repo
import LintPatrol.Store.Moderation

/-!
# LintPatrol.Cli.Command

What a command line asks for.
-/

namespace LintPatrol.Cli

/-- A command. -/
inductive Command where
  | init
  | scheduler
  | worker
  | addRepo (source : RepoSource)
  | listRepos
  | removeRepo (id : String)
  | addLinter (linter : Linter)
  | listLinters
  | removeLinter (id : String)
  | listFindings (filter : FindingFilter)
  | moderate (taskId path : String) (startLine endLine : UInt64) (status : Verdict)
      (moderator comment : Option String)
  | listTasks (status : Option String) (limit : UInt64)
  | stats
deriving Repr

/-- A command with the settings it is carried out with. -/
structure Invocation where
  config : String
  database : Option String
  command : Command
deriving Repr

/-- The number that a text writes. -/
def count? (s : String) : Option UInt64 := (Number.readUInt64 s.toList).toOption

/-- The command that words name, if they name one. -/
def Command.ofGiven? (g : Given) : Option Command :=
  match g.path with
  | ["init"] => some .init
  | ["scheduler"] => some .scheduler
  | ["worker"] => some .worker
  | ["repo", "add"] =>
    return .addRepo ⟨← g.value? "id", ← g.value? "url", (g.value? "branch").getD "master"⟩
  | ["repo", "list"] => some .listRepos
  | ["repo", "remove"] => (g.value? "id").map .removeRepo
  | ["linter", "add"] => do
    let source : LinterSource :=
      ⟨← g.value? "id", ← g.value? "url", (g.value? "branch").getD "main"⟩
    match g.value? "image", g.value? "digest" with
    | some image, some digest => return .addLinter (.resolved source ⟨source.id, image, digest⟩)
    | _, _ => return .addLinter (.unresolved source)
  | ["linter", "list"] => some .listLinters
  | ["linter", "remove"] => (g.value? "id").map .removeLinter
  | ["highlights", "list"] =>
    some (.listFindings
      ⟨g.value? "task", g.value? "linter", g.value? "repo",
        (g.value? "status").bind Verdict.ofName?⟩)
  | ["highlights", "moderate"] =>
    return .moderate (← g.value? "task") (← g.value? "path") (← (g.value? "start").bind count?)
      (← (g.value? "end").bind count?) (← (g.value? "status").bind Verdict.ofName?)
      (g.value? "moderator") (g.value? "comment")
  | ["tasks"] =>
    some (.listTasks (g.value? "status") (((g.value? "limit").bind count?).getD 50))
  | ["stats"] => some .stats
  | _ => none

/-- The command line as what it asks for.  A setting that is not given is
looked up in the environment. -/
def Invocation.ofWords (environment : List (String × String)) (words : List String) :
    Except Stop Invocation := do
  let g ← read environment words
  let setting? (name variable_ : String) : Option String :=
    (g.value? name).or ((environment.find? (·.1 = variable_)).map (·.2))
  match Command.ofGiven? g with
  | none => throw .usage
  | some command =>
    return {
      config := (setting? "config" "BUGHUNT_CONFIG").getD Config.defaultFile
      database := setting? "db" "BUGHUNT_DB"
      command }

end LintPatrol.Cli
