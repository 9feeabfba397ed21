import LintPatrol.Number.Integer
import LintPatrol.Stream.Buffered
import LintPatrol.Text.Split
import LintPatrol.Text.Utf8

/-!
# LintPatrol.Stream.Attach

Asking the container daemon for the output of a container.  The daemon
answers with a head like that of HTTP: a status line, headers that are of no
interest, and a blank line.  What follows on the same connection is the
output itself, and none of it may be lost or taken for a part of the head.
-/

namespace LintPatrol

open Number Text

/-- Why there is no output to read. -/
inductive AttachError where
  | unreachable
  | noAnswer
  | malformed (line : String)
  | rejected (line : String)
  /-- The answer ends within its head. -/
  | headCut
  | notText (fault : Utf8.Fault)
deriving Repr, DecidableEq

/-- What is reported of the error. -/
def AttachError.message : AttachError → String
  | unreachable => "No such file or directory (os error 2)"
  | noAnswer => "daemon closed the connection before responding"
  | malformed line => "invalid status line: " ++ line
  | rejected line => "attach rejected: " ++ line
  | headCut => "connection closed inside attach response headers"
  | notText fault => fault.message

namespace Attach

def requestLine (container : String) : String :=
  "POST /containers/" ++ container ++ "/attach?stream=1&stdout=1&stderr=1 HTTP/1.1"

/-- The code of a status line: its second word, the first one naming a
version of HTTP. -/
def statusCode? (line : List Char) : Option Nat :=
  match words line with
  | version :: code :: _ =>
    if startsWith "HTTP/".toList version then (readUInt16 code).toOption else none
  | _ => none

def isAccepted (code : Nat) : Bool := code = 101 || code = 200

/-- The text of the next line of the head; there is none at the end. -/
def readText (r : BufferedReader) : Except AttachError (List Char × BufferedReader) :=
  let (line, rest) := r.readUntil []
  match Utf8.fault? line with
  | some f => .error (.notText f)
  | none => .ok (Utf8.decodeLossy line, rest)

/-- Reads the status line. -/
def readStatus (r : BufferedReader) : Except AttachError BufferedReader :=
  match readText r with
  | .error e => .error e
  | .ok ([], _) => .error .noAnswer
  | .ok (line, rest) =>
    match statusCode? line with
    | none => .error (.malformed (String.ofList (trimEnd line)))
    | some code =>
      if isAccepted code then .ok rest else .error (.rejected (String.ofList (trimEnd line)))

def isBlankLine (line : List Char) : Bool := line = ['\r', '\n'] || line = ['\n']

/-- Passes over lines up to a blank one, `limit` lines at most. -/
def skipHeaders : (limit : Nat) → BufferedReader → Except AttachError BufferedReader
  | 0, _ => .error .headCut
  | limit + 1, r =>
    match readText r with
    | .error e => .error e
    | .ok ([], _) => .error .headCut
    | .ok (line, rest) => if isBlankLine line then .ok rest else skipHeaders limit rest

/-- Reads the head of the answer, and leaves the output.  There are no more lines
than bytes. -/
def readHead (t : Transport) : Except AttachError Transport := do
  let r ← readStatus (.ofTransport t)
  let r ← skipHeaders (r.bytes.length + 1) r
  pure r.rest

end Attach

end LintPatrol
