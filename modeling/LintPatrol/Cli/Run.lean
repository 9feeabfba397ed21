import LintPatrol.Checkout.Write
import LintPatrol.Cli.Command
import LintPatrol.Cli.Report
import LintPatrol.Database.File
import LintPatrol.Database.Operations
import LintPatrol.Role.World
import LintPatrol.Role.Scheduler
import LintPatrol.Role.Worker
import LintPatrol.Sandbox.Request

/-!
# LintPatrol.Cli.Run

Carrying out commands on a host.  A command finds its settings in the
configuration file, opens the database, does its work, and leaves the files
changed; the outcome is what the program prints and how it ends.  The
scheduler and the worker go through one iteration at a time.
-/

namespace LintPatrol.Cli

open Time

/-- What the program finds itself in.  Relative paths start from the directory, and
checkouts are made in `scratch` unless the settings say otherwise. -/
structure Host where
  directory : String
  files : Tree
  scratch : String
  environment : List (String × String)
  now : Instant

/-- What comes of a command. -/
inductive Outcome where
  | usage
  | help
  | done (output : String)
  | failed (output : String) (reason : Failure)
  | crashed
  | resting (pause : Duration)
deriving Repr

namespace Outcome

/-- The exit code. -/
def code : Outcome → Nat
  | usage => 2
  | failed .. => 1
  | crashed => 101
  | help | done _ | resting _ => 0

/-- What is printed. -/
def output : Outcome → String
  | done s | failed s _ => s
  | _ => ""

/-- What is printed about a failure. -/
def complaint : Outcome → String
  | failed _ reason => reason.report
  | _ => ""

end Outcome

namespace Host

def path (h : Host) (p : String) : String := Tree.joinPath h.directory p

/-! ## Settings -/

/-- What the configuration file is found to hold. -/
def configSource (h : Host) (file : String) : Config.Source :=
  if h.files.hasPath (h.path file) then
    match h.files.read (h.path file) with
    | .ok bytes => .content bytes
    | .error e => .unreadable e.message
  else .missing

/-- The settings of a command, once they are found to be such that a run can
work with them. -/
def config (h : Host) (i : Invocation) : Except Failure Config := do
  let c ← Config.loadOrDefault i.config (h.configSource i.config)
  let c := { c with storage := { c.storage with path := i.database.getD c.storage.path } }
  c.validate
  return c

/-! ## The database -/

/-- Does something with the database. -/
def withDatabase (h : Host) (c : Config) (act : Database → Host → Outcome × Database × Host) :
    Outcome × Host :=
  let path := c.storage.path
  match Database.openAt h.files h.directory path (.ofSeconds c.storage.busyTimeoutSecs) with
  | .refused reason => (.failed "" (reason.within ("Failed to open database at " ++ path)), h)
  | .crashed at_ => (.crashed, { h with files := Database.abandon at_ h.files })
  | .opened d at_ =>
    let (outcome, d, h) := act d { h with files := Database.close d at_ h.files }
    (outcome, { h with files := Database.close d at_ h.files })

/-- Makes the directory of the database, the database, and a configuration
file if there is none. -/
def setUp (h : Host) (file : String) (c : Config) : Outcome × Host :=
  let parent := (Tree.parent? c.storage.path).getD ""
  match if parent.isEmpty then .ok h.files else h.files.createAll (h.path parent) with
  | .error e => (.failed "" ⟨"Failed to create " ++ parent, [e.message]⟩, h)
  | .ok files =>
    withDatabase { h with files := files } c fun d h =>
      let made := printed ["Database initialized at " ++ c.storage.path]
      if h.files.hasPath (h.path file) then
        (.done (made ++ printed ["Using existing config " ++ file]), d, h)
      else
        match h.files.write (h.path file) (Text.Utf8.bytes c.toText) with
        | .error e => (.failed made ⟨"Failed to write " ++ file, [e.message]⟩, d, h)
        | .ok files =>
          (.done (made ++ printed ["Wrote default config to " ++ file]), d,
            { h with files := files })

/-! ## Roles -/

/-- One iteration of a role, with the pauses after one that failed and after
one that succeeded. -/
def iterate (h : Host) (failDelay successDelay : UInt64) (d : Database)
    (iteration : World.Rest Database Unit Unit) : Outcome × Database × Host :=
  let (root, time) := Timeline.start.root
  let (report, w) := iteration root () ⟨time, h.files, d, 0, ()⟩
  (.resting (.ofSeconds (if report.isNone then successDelay else failDelay)), w.data,
    { h with files := w.files })

/-- The services the roles have. -/
def services (h : Host) (c : Config) : Services Database Unit :=
  .isolated Database.keeper c.sandbox.dockerSocket h.now

/-- One pass of the scheduler. -/
def schedule (h : Host) (c : Config) (d : Database) : Outcome × Database × Host :=
  let s := c.scheduler
  h.iterate s.failDelaySecs s.successDelaySecs d
    (Scheduler.pass s (h.path (s.scratchDir.getD h.scratch)) (h.services c))

/-- One iteration of a worker. -/
def work (h : Host) (c : Config) (d : Database) : Outcome × Database × Host :=
  match SandboxLimits.ofConfig c.sandbox with
  | .error e => (.failed "" e, d, h)
  | .ok _ =>
    let s := c.worker
    h.iterate s.failDelaySecs s.successDelaySecs d
      (Worker.iteration s (h.path (s.scratchDir.getD h.scratch)) (h.services c))

end Host

/-! ## Commands -/

/-- What is printed, or a failure. -/
abbrev Answer := Except Failure String

/-- A failure unless something has been found. -/
def orMissing (found : Bool) (missing done : String) : Answer :=
  if found then .ok (printed [done]) else .error (.plain missing)

/-- Carries out a command on the database.  The commands that need more than
the database have nothing to do here. -/
def Command.perform (now : Instant) (d : Database) : Command → Answer × Database
  | .addRepo s =>
    (.ok (printed ["Tracking repo " ++ s.id ++ " (" ++ s.url ++ " @ " ++ s.branch ++ ")"]),
      d.putRepo (.unresolved s))
  | .listRepos => (d.listRepos.map repoTable, d)
  | .removeRepo id =>
    let (found, d) := d.deleteRepo id
    (orMissing found ("Repo '" ++ id ++ "' not found") ("Removed repo " ++ id), d)
  | .addLinter l =>
    let image := (l.image?.map (·.reference)).getD "no image yet"
    (.ok (printed ["Registered linter " ++ l.source.id ++ " (" ++ image ++ ")"]), d.putLinter l)
  | .listLinters => (d.listLinters.map linterTable, d)
  | .removeLinter id =>
    let (found, d) := d.deleteLinter id
    (orMissing found ("Linter '" ++ id ++ "' not found") ("Removed linter " ++ id), d)
  | .listFindings filter => ((d.listFindings filter).map findingsText, d)
  | .moderate taskId path startLine endLine status moderator comment =>
    let place := placeText path startLine endLine
    let (n, d) := d.moderate taskId path startLine endLine ⟨status, moderator, some now, comment⟩
    (orMissing (n ≠ 0) ("No highlight at " ++ place ++ " in task " ++ taskId)
      ("Marked " ++ place ++ " as " ++ status.name), d)
  | .listTasks status limit =>
    ((d.listTasks (status.bind TaskStatus.ofName?) limit).map taskTable, d)
  | .stats => (d.linterStats.map statsTable, d)
  | .init | .scheduler | .worker => (.ok "", d)

/-- The status that a command asks for, if it is none. -/
def Command.unknownStatus? : Command → Option String
  | .listTasks (some s) _ => if (TaskStatus.ofName? s).isNone then some s else none
  | _ => none

/-- Carries out a command line that makes sense. -/
def Invocation.run (i : Invocation) (h : Host) : Outcome × Host :=
  match i.command.unknownStatus? with
  | some s => (.failed "" (.plain (TaskStatus.unknown s)), h)
  | none =>
    match h.config i with
    | .error e => (.failed "" e, h)
    | .ok c =>
      match i.command with
      | .init => h.setUp i.config c
      | .scheduler => h.withDatabase c fun d h => h.schedule c d
      | .worker => h.withDatabase c fun d h => h.work c d
      | command =>
        h.withDatabase c fun d h =>
          match command.perform h.now d with
          | (.ok s, d) => (.done s, d, h)
          | (.error e, d) => (.failed "" e, d, h)

def version : String := "bughunt 0.1.0"

/-- Carries out a command line. -/
def run (words : List String) (h : Host) : Outcome × Host :=
  match Invocation.ofWords h.environment words with
  | .error .usage => (.usage, h)
  | .error .help => (.help, h)
  | .error .version => (.done (printed [version]), h)
  | .ok i => i.run h

end LintPatrol.Cli
