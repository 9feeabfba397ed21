import LintPatrol.Highlight.Basic
import LintPatrol.Number.Integer
import LintPatrol.Text.Blank
import LintPatrol.Text.Split

/-!
# LintPatrol.Highlight.Annotation

The lines of a linter's output that carry highlights.  An *annotation* is a
workflow command

    ::warning file=a.go,line=10,endLine=12,title=Bug::unused result

with a list of properties and a message, in which `%` escapes the characters
that would end a part.  A line that begins with `::skip` says that the
linter declined to run, whatever else it wrote.  All other lines are no
concern of ours.
-/

namespace LintPatrol.Annotation

open Text

/-! ## Escapes -/

/-- The character that `%` and two more stand for; a colon and a comma are
escaped in properties only. -/
def escaped? (inProperty : Bool) (a b : Char) : Option Char :=
  match a, asciiUpper b with
  | '2', '5' => some '%'
  | '0', 'D' => some '\r'
  | '0', 'A' => some '\n'
  | '3', 'A' => if inProperty then some ':' else none
  | '2', 'C' => if inProperty then some ',' else none
  | _, _ => none

/-- The text that an escaped text stands for; a `%` that begins no escape
stands for itself. -/
def unescape (inProperty : Bool) : List Char → List Char
  | '%' :: a :: b :: cs =>
    match escaped? inProperty a b with
    | some c => c :: unescape inProperty cs
    | none => '%' :: unescape inProperty (a :: b :: cs)
  | c :: cs => c :: unescape inProperty cs
  | [] => []

/-- A character as it is written in a message, or in a property. -/
def escapeChar (inProperty : Bool) (c : Char) : List Char :=
  if c = '%' then ['%', '2', '5']
  else if c = '\r' then ['%', '0', 'D']
  else if c = '\n' then ['%', '0', 'A']
  else if inProperty ∧ c = ':' then ['%', '3', 'A']
  else if inProperty ∧ c = ',' then ['%', '2', 'C']
  else [c]

/-- A text as it is written in a message, or in a property. -/
def escape (inProperty : Bool) (cs : List Char) : List Char := cs.flatMap (escapeChar inProperty)

/-! ## Properties -/

/-- A property list as pairs of a trimmed name and an unescaped value; what
has no `=` is passed over. -/
def properties (cs : List Char) : List (List Char × List Char) :=
  (splitAt ',' cs).filterMap fun p =>
    (cutAt ['='] p).map fun (k, v) => (trim k, unescape true v)

def property? (name : String) (ps : List (List Char × List Char)) : Option (List Char) :=
  (ps.reverse.find? (·.1 = name.toList)).map (·.2)

/-- A property as a line number. -/
def lineNumber? (name : String) (ps : List (List Char × List Char)) : Option UInt64 := do
  let v ← property? name ps
  (Number.readUInt64 (trim v)).toOption

/-! ## Annotations -/

def nonEmpty? (cs : List Char) : Option (List Char) := if cs.isEmpty then none else some cs

/-- What is said of a highlight that has a title, a message, both or none. -/
def explanation : (title message : Option (List Char)) → List Char
  | some t, some m => t ++ [':', ' '] ++ m
  | some t, none => t
  | none, some m => m
  | none, none => []

/-- The highlight of an annotation behind its command.  It needs a first line
and a file; without a readable last line it is one line long.  A property
`message` stands in for a trailing message that is absent or empty. -/
def parse? (cs : List Char) : Option Highlight := do
  let (attributes, trailing) :=
    match cutAt [':', ':'] cs with
    | some (l, r) => (l, some (unescape false r))
    | none => (cs, none)
  let ps := properties attributes
  let startLine ← lineNumber? "line" ps
  let path ← (property? "file" ps).bind nonEmpty?
  let title := (property? "title" ps).bind nonEmpty?
  let message := (trailing.bind nonEmpty?).or ((property? "message" ps).bind nonEmpty?)
  pure
    { path := String.ofList path
      startLine := startLine
      endLine := (lineNumber? "endLine" ps).getD startLine
      explanation := String.ofList (explanation title message) }

/-- The beginning of a line that says that the linter declined to run. -/
def skipMarker : String := "::skip"

/-- The beginnings of a line that is an annotation. -/
def commands : List String := ["::warning ", "::error "]

/-- What a line of output says: that the linter declined to run, an annotation with a
highlight, or nothing of concern. -/
inductive Line where
  | skip
  | highlight (h : Highlight)
  | other
deriving Repr, DecidableEq

/-- Reads a line of output. -/
def Line.ofText (line : String) : Line :=
  let cs := line.toList
  if startsWith skipMarker.toList cs then .skip
  else
    match (commands.findSome? fun c => after? c.toList cs).bind parse? with
    | some h => .highlight h
    | none => .other

/-- What a whole output says. -/
inductive Extraction where
  | skipped
  | highlights (hs : List Highlight)
deriving Repr, DecidableEq

/-- Reads the lines of an output, `found` holding the highlights so far
backwards. -/
def extractFrom (found : List Highlight) : List String → Extraction
  | [] => .highlights found.reverse
  | l :: ls =>
    match Line.ofText l with
    | .skip => .skipped
    | .highlight h => extractFrom (h :: found) ls
    | .other => extractFrom found ls

/-- The highlights in an output, or that the linter declined to run. -/
def extract (lines : List String) : Extraction := extractFrom [] lines

end LintPatrol.Annotation
