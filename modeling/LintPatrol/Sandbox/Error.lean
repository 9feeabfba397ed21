import LintPatrol.Failure

/-!
# LintPatrol.Sandbox.Error

Why running a linter in a container came to nothing.
-/

namespace LintPatrol

/-- Why running a container failed. -/
inductive SandboxError where
  | connect (socket reason : String)
  | pull (image reason : String)
  | create (image reason : String)
  | attach (container reason : String)
  | start (container reason : String)
  | wait (container reason : String)
  | stream (container reason : String)
  | outputRejected (container reason : String)
  | nonZeroExitCode (code : Int)
  | cancelled
deriving Repr, DecidableEq, Inhabited

namespace SandboxError

/-- The name of the kind of error. -/
def kind : SandboxError → String
  | connect .. => "Connect"
  | pull .. => "Pull"
  | create .. => "Create"
  | attach .. => "Attach"
  | start .. => "Start"
  | wait .. => "Wait"
  | stream .. => "Stream"
  | outputRejected .. => "OutputRejected"
  | nonZeroExitCode _ => "NonZeroExitCode"
  | cancelled => "Cancelled"

/-- What is reported of the error. -/
def message : SandboxError → String
  | connect socket reason => "Failed to connect to Docker at " ++ socket ++ ": " ++ reason
  | pull image reason => "Failed to pull image " ++ image ++ ": " ++ reason
  | create image reason => "Failed to create container for image " ++ image ++ ": " ++ reason
  | attach container reason => "Failed to attach to container " ++ container ++ ": " ++ reason
  | start container reason => "Failed to start container " ++ container ++ ": " ++ reason
  | wait container reason => "Failed to wait for container " ++ container ++ ": " ++ reason
  | stream container reason =>
    "Failed to read output of container " ++ container ++ ": " ++ reason
  | outputRejected container reason =>
    "Rejected output of container " ++ container ++ ": " ++ reason
  | nonZeroExitCode code => "Container exited with non-zero code " ++ toString code
  | cancelled => "Container run cancelled"

/-- The causes of the error. -/
def causes : SandboxError → List String
  | connect _ reason => [reason]
  | pull _ reason => [reason]
  | create _ reason => [reason]
  | attach _ reason => [reason]
  | start _ reason => [reason]
  | stream _ reason => [reason]
  | outputRejected _ reason => [reason]
  | wait .. => []
  | nonZeroExitCode _ => []
  | cancelled => []

def failure (e : SandboxError) : Failure := ⟨e.message, e.causes⟩

end SandboxError

end LintPatrol
