import LintPatrol.Json.Reader
import LintPatrol.Json.Record
import LintPatrol.Text.Split

/-!
# LintPatrol.Sandbox.Reply

How an answer of the container daemon is understood.  A status that tells of
no success is an error whose text the body gives; otherwise the body is read
for what was asked.
-/

namespace LintPatrol

/-- An answer of the daemon. -/
structure SandboxReply where
  status : Nat
  body : String
deriving Repr, DecidableEq, Inhabited

namespace SandboxReply

/-- Does the status tell of success?  That nothing had to be changed is a
success. -/
def isSuccess (r : SandboxReply) : Bool :=
  (200 ≤ r.status && r.status < 300) || r.status = 304 || r.status = 101

/-- What the body of a refusal says: its member `message`, or else all of it. -/
def refusalText (body : String) : String :=
  (((Json.ofText? body).bind (·.field? "message")).bind Json.str?).getD body

/-- The answer, unless it is a refusal. -/
def accepted (r : SandboxReply) : Except String Unit :=
  if r.isSuccess then .ok ()
  else
    .error ("Docker responded with status code " ++ toString r.status ++ ": " ++ refusalText r.body)

def values (body : String) : List Json :=
  (Text.lines body.toList).filterMap fun l => Json.ofText? (String.ofList l)

/-- The text of the first error that is reported while an image is pulled. -/
def progressError? (body : String) : Option String :=
  (values body).findSome? fun v => (v.field? "error").bind Json.str?

/-- Has the image been pulled? -/
def pulled (r : SandboxReply) : Except String Unit := do
  r.accepted
  match progressError? r.body with
  | some e => .error ("Docker stream error: " ++ e)
  | none => .ok ()

def unreadable : String := "Failed to deserialize JSON"

/-- The name of the container that has been created. -/
def created (r : SandboxReply) : Except String String := do
  r.accepted
  match ((Json.ofText? r.body).bind (·.field? "Id")).bind Json.str? with
  | some id => .ok id
  | none => .error unreadable

/-- The code the container ended with. -/
def exitCode (r : SandboxReply) : Except String Int := do
  r.accepted
  match values r.body with
  | [] => .error "wait stream ended without an exit status"
  | v :: _ =>
    match (v.field? "StatusCode").bind Json.int? with
    | some code => .ok code
    | none => .error unreadable

/-- The bytes that have been given back; an amount that is missing or
negative counts as none. -/
def reclaimed (r : SandboxReply) : Except String UInt64 := do
  r.accepted
  match Json.ofText? r.body with
  | some (.obj members) =>
    match Json.optional Json.int64? (Json.member? "SpaceReclaimed" members) with
    | some (some n) => .ok (UInt64.ofNat n.toInt.toNat)
    | some none => .ok 0
    | none => .error unreadable
  | _ => .error unreadable

end SandboxReply

end LintPatrol
