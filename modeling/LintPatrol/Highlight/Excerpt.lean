import LintPatrol.Highlight.Basic
import LintPatrol.Text.Blank
import LintPatrol.Text.Split
import LintPatrol.Text.Utf8

/-!
# LintPatrol.Highlight.Excerpt

Cutting the code around a highlight out of a file: two lines more on either
side as far as the file goes, without the white space that all these lines
begin with.  A highlight that does not lie within the file is an error.

How much white space that is counts in bytes, as the least of what neighbours
share.  Whatever is cut at a place that is not there, or within a character,
is a crash and not an error of the highlight.
-/

namespace LintPatrol

open Text

/-- Why no code can be cut out for a highlight. -/
inductive ExcerptError where
  | invalidRange (path : String) (startLine endLine : UInt64) (lineCount : Nat)
  | unreadable (path reason : String)
  | pathOutside (path : String)
  | crashed
deriving Repr, DecidableEq

/-- The name of the kind of error. -/
def ExcerptError.kind : ExcerptError → String
  | .invalidRange .. => "InvalidRange"
  | .unreadable .. => "ReadFile"
  | .pathOutside .. => "PathOutsideRepo"
  | .crashed => "Panic"

/-- What is reported of the error. -/
def ExcerptError.message : ExcerptError → String
  | .invalidRange path s e n =>
    "Invalid highlight lines " ++ toString s ++ "-" ++ toString e ++ " in " ++ path ++ " (" ++
      toString n ++ " lines)"
  | .unreadable path reason => "Unable to read file " ++ path ++ ": " ++ reason
  | .pathOutside path => "Highlight path " ++ path ++ " escapes the repository"
  | .crashed => "Snippet extraction panicked"

/-- The causes of the error. -/
def ExcerptError.causes : ExcerptError → List String
  | .unreadable _ reason => [reason]
  | _ => []

namespace Excerpt

/-- Lines of context on either side of a highlight. -/
def margin : Nat := 2

/-! ## Indentation -/

/-- The longest white space both lines begin with. -/
def sharedIndent : List Char → List Char → List Char
  | a :: as, b :: bs => if a = b ∧ isBlank a then a :: sharedIndent as bs else []
  | _, _ => []

/-- How many bytes of white space the line begins with. -/
def leadingWidth (l : List Char) : Nat := Utf8.size l - Utf8.size (trimStart l)

/-- The least of a width and of what every line shares with the next one. -/
def narrow (width : Nat) : List (List Char) → Nat
  | l :: m :: ls => narrow (min width (Utf8.size (sharedIndent l m))) (m :: ls)
  | _ => width

/-- How many bytes of white space all lines begin with. -/
def indentWidth : List (List Char) → Nat
  | [] => 0
  | l :: ls => narrow (leadingWidth l) (l :: ls)

/-- The lines without the white space all of them begin with, put together. -/
def dedent? (ls : List (List Char)) : Option (List Char) :=
  (ls.mapM (Utf8.dropBytes? (indentWidth ls))).map (join ['\n'])

/-! ## Excerpts -/

def inRange (count : Nat) (h : Highlight) : Bool :=
  1 ≤ h.startLine.toNat ∧ h.startLine ≤ h.endLine ∧ h.endLine.toNat ≤ count

def firstLine (h : Highlight) : Nat := max 1 (h.startLine.toNat - margin)

/-- The last line of the excerpt, if the sum is a number that lines can have. -/
def lastLine? (count : Nat) (h : Highlight) : Option Nat :=
  if h.endLine.toNat + margin < UInt64.size then some (min (h.endLine.toNat + margin) count)
  else none

/-- The lines behind the first `a` and up to the `b`-th. -/
def slice? (a b : Nat) (ls : List (List Char)) : Option (List (List Char)) :=
  if a ≤ b ∧ b ≤ ls.length then some ((ls.take b).drop a) else none

/-- The excerpt around a highlight that lies within the lines. -/
def snippet? (ls : List (List Char)) (h : Highlight) : Option Snippet := do
  let last ← lastLine? ls.length h
  let covered ← slice? (firstLine h - 1) last ls
  let code ← dedent? covered
  pure ⟨UInt64.ofNat (firstLine h), UInt64.ofNat last, String.ofList code⟩

/-- Cuts the code around a highlight out of the lines of its file. -/
def cut (ls : List (List Char)) (h : Highlight) : Except ExcerptError Finding :=
  if inRange ls.length h then
    match snippet? ls h with
    | some s => .ok ⟨h, s⟩
    | none => .error .crashed
  else .error (.invalidRange h.path h.startLine h.endLine ls.length)

/-- Cuts the code around every highlight out of the text of their file. -/
def ofFile (content : List Char) (hs : List Highlight) : Except ExcerptError (List Finding) :=
  hs.mapM (cut (lines content))

end Excerpt

end LintPatrol
