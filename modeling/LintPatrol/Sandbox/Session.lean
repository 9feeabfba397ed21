import LintPatrol.Sandbox.Error
import LintPatrol.Sandbox.Reply
import LintPatrol.Sandbox.Request
import LintPatrol.Stream.Transport

/-!
# LintPatrol.Sandbox.Session

The container daemon, and sessions with it: requests one after the other, and
what they come to.  A clean-up is such a session, which may be cut short before
a request goes out, or while its answer is awaited.
-/

namespace LintPatrol

/-- What the daemon answers, or why it cannot be reached, and what a container writes. -/
structure Daemon where
  unreachable? : Option String
  /-- The answer to each request, or why there is none; output that is asked for
  comes over a connection of its own. -/
  reply : SandboxRequest → Except String SandboxReply
  output : Transport
  /-- Why it breaks off behind that, if it is not just closed. -/
  broken? : Option String

/-- The moment a session is cut short: never, or when so many requests and
answers have passed. -/
abbrev Cutoff := Option Nat

/-- Does the session still go on after so many requests and answers? -/
def Cutoff.isLive (c : Cutoff) (passed : Nat) : Bool :=
  match c with
  | none => true
  | some n => passed < n

/-- What became of a session. -/
structure SandboxSession (α : Type) where
  requests : List SandboxRequest
  result : Except SandboxError α

namespace SandboxSession

def done {α : Type} (result : Except SandboxError α) : SandboxSession α := ⟨[], result⟩

/-- One session after another, if the first one succeeds. -/
def andThen {α β : Type} (s : SandboxSession α) (next : α → SandboxSession β) :
    SandboxSession β :=
  match s.result with
  | .error e => ⟨s.requests, .error e⟩
  | .ok a => ⟨s.requests ++ (next a).requests, (next a).result⟩

/-- One request, the `n`-th of its session, and its answer. -/
def ask {α : Type} (c : Cutoff) (n : Nat) (r : SandboxRequest) (answer : Except SandboxError α) :
    SandboxSession α :=
  if !c.isLive (2 * n) then done (.error .cancelled)
  else if !c.isLive (2 * n + 1) then ⟨[r], .error .cancelled⟩
  else ⟨[r], answer⟩

end SandboxSession

namespace Daemon

open SandboxSession

/-- What the answer to a request says, if it comes. -/
def answer {α : Type} (d : Daemon) (r : SandboxRequest) (read : SandboxReply → Except String α) :
    Except String α :=
  (d.reply r).bind read

/-- The error of a daemon that cannot be reached. -/
def connection (d : Daemon) (socket : String) : Except SandboxError Unit :=
  match d.unreachable? with
  | some reason => .error (.connect socket reason)
  | none => .ok ()

end Daemon

/-! ## Cleaning up -/

/-- What a clean-up gave back, in bytes. -/
structure CleanupReport where
  containers : UInt64
  buildCache : UInt64
  volumes : UInt64
  images : UInt64
  /-- The steps that failed; nothing is counted for them. -/
  failedSteps : List String
deriving Repr, DecidableEq, Inhabited

def CleanupReport.total (r : CleanupReport) : UInt64 :=
  r.containers + r.buildCache + r.volumes + r.images

namespace Daemon

open SandboxSession

/-- One step of a clean-up: the bytes given back, none if the step fails. -/
def pruneStep (d : Daemon) (c : Cutoff) (n : Nat) (r : SandboxRequest) :
    SandboxSession (Option UInt64) :=
  ask c n r (.ok (d.answer r (·.reclaimed)).toOption)

/-- The name of a step as it is reported when it fails. -/
def failedStep (name : String) : Option UInt64 → List String
  | some _ => []
  | none => [name]

/-- Cleans up.  Only a daemon that does not answer makes it fail. -/
def cleanup (d : Daemon) (c : Cutoff) (socket : String) : SandboxSession CleanupReport :=
  (done (d.connection socket)).andThen fun _ =>
    (ask c 0 .ping ((d.answer .ping (·.accepted)).mapError (.connect socket))).andThen fun _ =>
      (d.pruneStep c 1 .pruneContainers).andThen fun containers =>
        (d.pruneStep c 2 .pruneBuild).andThen fun build =>
          (d.pruneStep c 3 .pruneVolumes).andThen fun volumes =>
            (d.pruneStep c 4 .pruneImages).andThen fun images =>
              done (.ok
                { containers := containers.getD 0
                  buildCache := build.getD 0
                  volumes := volumes.getD 0
                  images := images.getD 0
                  failedSteps :=
                    failedStep "containers" containers ++ failedStep "build_cache" build ++
                      failedStep "volumes" volumes ++ failedStep "images" images })

end Daemon

end LintPatrol
