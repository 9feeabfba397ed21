import LintPatrol.Json.Lenient
import LintPatrol.Rehearsal.Script

/-!
# LintPatrol.Rehearsal.Record

Scripts in JSON.  An error is written as its kind with what it says; a script
has an entry for each repository and each image, the entry `*` standing for
those that have none.
-/

namespace LintPatrol.Rehearsal

open Lenient

/-- An error of fetching a revision. -/
def gitError (v : Json) : GitError :=
  let url := strD v "url"
  let branch := strD v "branch"
  let commit := strD v "commit"
  let message := strD v "message"
  let dir := strD v "dir"
  match strD v "kind" with
  | "EmptyRef" => .emptyRef url
  | "Init" => .init dir message
  | "AddRemote" => .addRemote url message
  | "FetchBranch" => .fetchBranch url branch message
  | "Checkout" => .checkout url branch message
  | "FetchCommit" => .fetchCommit url commit message
  | "Reset" => .reset url commit message
  | "ResolveHead" => .resolveHead dir message
  | _ => .cancelled

/-- An error of running a container. -/
def sandboxError (v : Json) : SandboxError :=
  let container := strD v "container"
  let message := strD v "message"
  match strD v "kind" with
  | "Attach" => .attach container message
  | "Wait" => .wait container message
  | "Stream" => .stream container message
  | "OutputRejected" => .outputRejected container message
  | "NonZeroExitCode" => .nonZeroExitCode (intD v "code" 0)
  | _ => .cancelled

/-- What a clean-up gave back. -/
def cleanupReport (v : Json) : CleanupReport :=
  let n (k : String) : UInt64 := u64 (intD v k 0)
  ⟨n "containers", n "build_cache", n "volumes", n "images", strs v "failed_steps"⟩

def conduct (v : Json) (removes : String) : Conduct :=
  ⟨flag v removes, flag v "cancel", flag v "wait"⟩

/-- What comes of fetching a repository. -/
def fetching (v : Json) : Fetching :=
  { conduct := conduct v "remove_target", failure := (field? v "fail").map gitError
    head := strD v "head", files := files v "files" }

/-- What comes of running an image. -/
def running (v : Json) : Running :=
  { conduct := conduct v "remove_host", failure := (field? v "error").map sandboxError
    lines := (list v "lines").map text }

/-- The entry of a name, or the one of `*`. -/
def entry (v : Json) (k : String) : Json := ((v.field? k).or (v.field? "*")).getD .null

/-- A script: what comes of fetching, of running images and of cleaning up, and
the request that cancels the run. -/
def script (git sandbox cancelOn : Json) (root : Scope) : Script :=
  let cleaning := sub sandbox "cleanup"
  { root, log := []
    fetching := fun url => fetching (entry git url)
    running := fun image => running (entry (sub sandbox "images") image)
    cleaning :=
      if (field? cleaning "kind").isSome then .error (sandboxError cleaning)
      else .ok (cleanupReport cleaning)
    cancelOn := (str cancelOn "event").map (·, natD cancelOn "n" 0) }

/-- A keeper whose queue fails as laid down. -/
def keeper {δ : Type} (base : Keeper δ) (v : Json) : Keeper δ :=
  failingKeeper base (strs v "failing_linters") (flag v "fail_take") (flag v "fail_set")
    (.database (.plain "disk I/O error"))

/-- A request as it is noted. -/
def Event.toJson : Event → Json
  | .fetch url ref there =>
    .obj [("fetch", .str url), ("ref", .str ref.display), ("target_exists", .bool there)]
  | .exec image mount there =>
    .obj [("exec", .str image), ("mount", .str mount), ("host_is_dir", .bool there)]
  | .cleanup => .str "cleanup"

end LintPatrol.Rehearsal
