import LintPatrol.Sandbox.Run

/-!
# LintPatrol.Sandbox.Scripted

A container daemon that follows a script, to rehearse sessions with.  Every
request has a usual answer, which the script may replace; a request may also
cancel the run, and is then never answered.
-/

namespace LintPatrol

/-- What a daemon does that is not usual. -/
structure DaemonScript where
  isMissing : Bool
  status? : String → Option Nat
  body? : String → Option String
  attachStatus : String
  output : List UInt8
  cancelOn : Option String

/-- A session to rehearse. -/
inductive SandboxCall where
  | exec (image mount : String)
  | cleanup
deriving Repr, DecidableEq

/-- What a session comes to. -/
inductive SandboxYield where
  | lines (ls : List String)
  | report (r : CleanupReport)
deriving Repr, DecidableEq

namespace DaemonScript

/-- The usual answer to a request. -/
def usual : SandboxRequest → SandboxReply
  | .pull _ => ⟨200, "\x7b\"status\":\"done\"\x7d\n"⟩
  | .create .. => ⟨201, "\x7b\"Id\":\"c1\",\"Warnings\":[]\x7d"⟩
  | .start _ | .kill _ => ⟨204, ""⟩
  | .wait _ => ⟨200, "\x7b\"StatusCode\":0\x7d"⟩
  | .ping => ⟨200, "OK"⟩
  | _ => ⟨200, "\x7b\"SpaceReclaimed\":0\x7d"⟩

/-- The daemon that follows the script. -/
def daemon (d : DaemonScript) : Daemon where
  unreachable? := if d.isMissing then some "No such file or directory (os error 2)" else none
  reply r := .ok ⟨(d.status? r.kind).getD (usual r).status, (d.body? r.kind).getD (usual r).body⟩
  output := [Text.Utf8.bytes ("HTTP/1.1 " ++ d.attachStatus ++ "\r\n\r\n") ++ d.output]
  broken? := none

/-- The kinds of request that a session waits for, in order. -/
def awaited : SandboxCall → List String
  | .exec .. => ["pull", "create", "attach", "start", "wait"]
  | .cleanup => ["ping", "prune_containers", "prune_build", "prune_volumes", "prune_images"]

/-- The moment the script cuts a session short: once the request that cancels
has been received. -/
def cutoff (d : DaemonScript) (call : SandboxCall) : Cutoff :=
  (d.cancelOn.bind fun k => (awaited call).findIdx? (· = k)).map (2 * · + 1)

/-- The turns of a run: every request is answered at once, except that all the
output comes before the container has ended. -/
def turns (d : DaemonScript) (c : Cutoff) : List SandboxTurn :=
  let all :=
    [.proceed, .answer, .proceed, .answer, .proceed, .answer, .proceed, .answer, .proceed] ++
    d.daemon.output.map (fun _ => .output) ++ [.output, .answer]
  match c with
  | none => all
  | some n => all.take n

/-- One session, with what it comes to. -/
def session (d : DaemonScript) (socket : String) (limits : SandboxLimits) (host : String)
    (cancelled : Bool) (call : SandboxCall) : SandboxSession SandboxYield :=
  let c := if cancelled then some 0 else d.cutoff call
  match call with
  | .exec image mount =>
    (d.daemon.exec ⟨socket, limits, image, mount, host⟩ (d.turns c)).andThen fun ls =>
      .done (.ok (.lines ls))
  | .cleanup => (d.daemon.cleanup c socket).andThen fun r => .done (.ok (.report r))

/-- Sessions one after the other, with a run that may be cancelled from the
start; once cancelled it stays so. -/
def sessions (d : DaemonScript) (socket : String) (limits : SandboxLimits) (host : String) :
    (cancelled : Bool) → List SandboxCall → List (SandboxSession SandboxYield)
  | _, [] => []
  | cancelled, call :: calls =>
    let s := d.session socket limits host cancelled call
    let cancels := s.requests.any fun r => d.cancelOn = some r.kind
    s :: sessions d socket limits host (cancelled || cancels) calls

end DaemonScript

end LintPatrol
