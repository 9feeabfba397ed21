import LintPatrol.Git.Error
import LintPatrol.Registry.Repo
import LintPatrol.Text.Blank
import LintPatrol.Text.Split
import LintPatrol.Text.Utf8

/-!
# LintPatrol.Git.Command

Checking out a revision by commands of `git`.  An empty repository is made in
the directory, the revision is fetched into it, and the working tree is set
to what was fetched; the first command that fails ends it.  A name of white
space only is refused beforehand.
-/

namespace LintPatrol.Git

/-- How a command ended. -/
inductive Ending where
  | unstarted (reason : String)
  | exited (status : Nat) (errors : List UInt8)
  | killed (signal : Nat) (errors : List UInt8)
deriving Repr, DecidableEq

/-! ## How commands fail -/

/-- The names of the signals, from the first one on. -/
def signalNames : List String :=
  ["SIGHUP", "SIGINT", "SIGQUIT", "SIGILL", "SIGTRAP", "SIGABRT", "SIGBUS", "SIGFPE", "SIGKILL",
    "SIGUSR1", "SIGSEGV", "SIGUSR2", "SIGPIPE", "SIGALRM", "SIGTERM", "SIGSTKFLT", "SIGCHLD",
    "SIGCONT", "SIGSTOP", "SIGTSTP", "SIGTTIN", "SIGTTOU", "SIGURG", "SIGXCPU", "SIGXFSZ",
    "SIGVTALRM", "SIGPROF", "SIGWINCH", "SIGIO", "SIGPWR", "SIGSYS"]

/-- A signal with its name, if it has one. -/
def signalText (signal : Nat) : String :=
  match signal, signalNames[signal - 1]? with
  | 0, _ | _, none => "signal: " ++ toString signal
  | n, some name => "signal: " ++ toString n ++ " (" ++ name ++ ")"

/-- What is reported of a command that failed. -/
def failureText (arguments : List String) (status : String) (errors : List UInt8) : String :=
  "command [git " ++ Text.joined " " arguments ++ "] failed: " ++ status ++ " (" ++
    String.ofList (Text.trim (Text.Utf8.decodeLossy errors)) ++ ")"

/-- Why a command failed, if it did. -/
def Ending.failure? (arguments : List String) : Ending → Option String
  | unstarted reason => some ("failed to spawn git: " ++ reason)
  | exited status errors =>
    if status = 0 then none
    else some (failureText arguments ("exit status: " ++ toString status) errors)
  | killed signal errors => some (failureText arguments (signalText signal) errors)

/-! ## The commands of a checkout -/

/-- What commands find in their environment besides what is always there: they
must not ask anybody for anything. -/
def environment : List (String × String) := [("GIT_TERMINAL_PROMPT", "0")]

/-- A command, and the error it gives when it fails for some reason. -/
structure Step where
  arguments : List String
  error : String → GitError

/-- The commands that check out a revision into a directory. -/
def steps (url : String) (ref : GitRef) (dir : String) : List Step :=
  [⟨["init", "-q"], .init dir⟩, ⟨["remote", "add", "origin", url], .addRemote url⟩] ++
    match ref with
    | .branch b =>
      [⟨["fetch", "-q", "origin", b], .fetchBranch url b⟩,
        ⟨["checkout", "-q", "--force", "-B", b, "FETCH_HEAD"], .checkout url b⟩]
    | .commit c =>
      [⟨["fetch", "-q", "origin", c], .fetchCommit url c⟩,
        ⟨["reset", "-q", "--hard", c], .reset url c⟩]

/-- A program that understands the commands, working on some state: it runs a command
in the directory of the checkout, knows the commit that is checked out, and says
whether a command may still be started. -/
structure Program (σ : Type) where
  run : (arguments : List String) → σ → Ending × σ
  head : σ → Except String String
  isLive : σ → Bool

namespace Program

variable {σ : Type}

/-- Runs commands until one of them fails. -/
def runAll (p : Program σ) : List Step → σ → Except GitError Unit × σ
  | [], s => (.ok (), s)
  | step :: rest, s =>
    if p.isLive s then
      let (ending, s) := p.run step.arguments s
      match ending.failure? step.arguments with
      | some reason => (.error (step.error reason), s)
      | none => p.runAll rest s
    else (.error .cancelled, s)

def resolveHead (p : Program σ) (dir : String) (s : σ) : Except GitError String :=
  (p.head s).mapError (.resolveHead dir)

/-- Checks out a revision into a directory, and gives its commit. -/
def fetch (p : Program σ) (url : String) (ref : GitRef) (dir : String) (s : σ) :
    Except GitError String × σ :=
  if (Text.trim ref.name.toList).isEmpty then (.error (.emptyRef url), s)
  else
    match p.runAll (steps url ref dir) s with
    | (.error e, s) => (.error e, s)
    | (.ok (), s) => (p.resolveHead dir s, s)

end Program

end LintPatrol.Git
