import LintPatrol.Config.Basic
import LintPatrol.Json.Value
import LintPatrol.Text.Utf8

/-!
# LintPatrol.Sandbox.Request

What is asked of the container daemon.  A request has a line, a query and
perhaps a body; the path stands without the version of the protocol.
-/

namespace LintPatrol

/-- What a container may use, and how much output it may make. -/
structure SandboxLimits where
  memory : Int
  cpuQuota : Int
  pids : Int
  maxOutput : Nat
deriving Repr, DecidableEq, Inhabited

/-- The limits that the settings ask for. -/
def SandboxLimits.ofConfig (c : SandboxConfig) : Except Failure SandboxLimits := do
  let output ← c.maxOutputBytes.mapError (·.within "Invalid sandbox max_output")
  let memory ← c.memoryBytes.mapError (·.within "Invalid sandbox memory")
  pure ⟨memory, c.cpuQuota, c.pidsLimit.toInt, output.toNat⟩

/-- What is asked of the daemon. -/
inductive SandboxRequest where
  | pull (image : String)
  | create (image mount host : String) (limits : SandboxLimits)
  | attach (container : String)
  | start (container : String)
  | wait (container : String)
  | kill (container : String)
  | ping
  | pruneContainers
  | pruneBuild
  | pruneVolumes
  | pruneImages
deriving Repr, DecidableEq, Inhabited

namespace SandboxRequest

/-- The kind of request. -/
def kind : SandboxRequest → String
  | pull _ => "pull"
  | create .. => "create"
  | attach _ => "attach"
  | start _ => "start"
  | wait _ => "wait"
  | kill _ => "kill"
  | ping => "ping"
  | pruneContainers => "prune_containers"
  | pruneBuild => "prune_build"
  | pruneVolumes => "prune_volumes"
  | pruneImages => "prune_images"

/-- Method and path. -/
def line : SandboxRequest → String
  | pull _ => "POST /images/create"
  | create .. => "POST /containers/create"
  | attach c => "POST /containers/" ++ c ++ "/attach"
  | start c => "POST /containers/" ++ c ++ "/start"
  | wait c => "POST /containers/" ++ c ++ "/wait"
  | kill c => "POST /containers/" ++ c ++ "/kill"
  | ping => "GET /_ping"
  | pruneContainers => "POST /containers/prune"
  | pruneBuild => "POST /build/prune"
  | pruneVolumes => "POST /volumes/prune"
  | pruneImages => "POST /images/prune"

/-! ## Queries -/

/-- Does a byte stand for itself in a query? -/
def isPlain (b : UInt8) : Bool :=
  (0x30 ≤ b && b ≤ 0x39) || (0x41 ≤ b && b ≤ 0x5A) || (0x61 ≤ b && b ≤ 0x7A) ||
    b = 0x2A || b = 0x2D || b = 0x2E || b = 0x5F

def capitalHexDigit (n : Nat) : Char := Char.ofNat (if n < 10 then 48 + n else 55 + n)

/-- A byte in a query: a blank is a plus sign, and what does not stand for
itself is a percent sign with two digits. -/
def queryByte (b : UInt8) : List Char :=
  if isPlain b then [Char.ofNat b.toNat]
  else if b = 0x20 then ['+']
  else ['%', capitalHexDigit (b.toNat / 16), capitalHexDigit (b.toNat % 16)]

/-- A text in a query. -/
def queryText (s : String) : String := String.ofList ((Text.Utf8.bytes s).flatMap queryByte)

/-- The parts of the query that are not empty, in ascending order. -/
def query : SandboxRequest → List String
  | pull image => if image.isEmpty then [] else ["fromImage=" ++ queryText image]
  | attach _ => ["stderr=1", "stdout=1", "stream=1"]
  | pruneBuild => ["all=true"]
  | _ => []

/-! ## Bodies -/

/-- The body, if there is one. -/
def body? : SandboxRequest → Option Json
  | create image mount host limits =>
    some (.obj
      [("Image", .str image), ("Cmd", .arr [.str mount]), ("AttachStdout", .bool true),
       ("AttachStderr", .bool true), ("Tty", .bool false),
       ("HostConfig",
         .obj
           [("Binds", .arr [.str (host ++ ":" ++ mount)]), ("Memory", .int limits.memory),
            ("CpuPeriod", .int SandboxConfig.cpuPeriod), ("CpuQuota", .int limits.cpuQuota),
            ("PidsLimit", .int limits.pids)])])
  | _ => none

end SandboxRequest

end LintPatrol
