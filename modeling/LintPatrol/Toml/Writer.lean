import LintPatrol.Json.Writer
import LintPatrol.Number.Shortest
import LintPatrol.Text.Split
import LintPatrol.Toml.Value

/-!
# LintPatrol.Toml.Writer

Writes strings, numbers and truth values of TOML.  A string is written in
the first of four styles that needs no escapes: double quotes, single
quotes, and the same two over several lines; a string that needs escapes
anyway is written in double quotes, over several lines if it has any.
-/

namespace LintPatrol.Toml

/-! ## Strings -/

/-- A way of writing a string. -/
structure Style where
  quote : Char
  multiline : Bool
  escapes : Bool
deriving Repr, DecidableEq

/-- The longest run of a character. -/
def longestRun (c : Char) (cs : List Char) : Nat :=
  (cs.foldl (fun (best, run) d => if d = c then (max best (run + 1), run + 1) else (best, 0))
    ((0, 0) : Nat × Nat)).1

/-- Has the text control characters other than tabs and line feeds? -/
def hasControl (cs : List Char) : Bool :=
  cs.any fun c => (c.toNat < 0x20 && c != '\t' && c != '\n') || c.toNat == 0x7F

/-- The style in which a string is written. -/
def styleOf (cs : List Char) : Style :=
  let control := hasControl cs
  let lines := cs.contains '\n'
  let backslash := cs.contains '\\'
  let doubles := longestRun '"' cs
  let singles := longestRun '\'' cs
  if !control && !backslash && doubles = 0 && !lines then ⟨'"', false, true⟩
  else if !control && singles = 0 && !lines then ⟨'\'', false, false⟩
  else if !control && !backslash && doubles ≤ 2 then ⟨'"', true, true⟩
  else if !control && singles ≤ 2 then ⟨'\'', true, false⟩
  else ⟨'"', lines, true⟩

/-- The four hexadecimal digits of a small number, in capital letters. -/
def hex4 (n : Nat) : List Char :=
  [n / 4096 % 16, n / 256 % 16, n / 16 % 16, n % 16].map fun d =>
    if d < 10 then Char.ofNat ('0'.toNat + d) else Char.ofNat ('A'.toNat + d - 10)

/-- A character other than a quote as it stands in a string with escapes. -/
def escapeChar (multiline : Bool) (c : Char) : List Char :=
  if c = '\x08' then ['\\', 'b']
  else if c = '\t' then ['\\', 't']
  else if c = '\n' then if multiline then ['\n'] else ['\\', 'n']
  else if c = '\x0c' then ['\\', 'f']
  else if c = '\r' then ['\\', 'r']
  else if c = '\\' then ['\\', '\\']
  else if c.toNat < 0x20 ∨ c.toNat = 0x7F then ['\\', 'u'] ++ hex4 c.toNat
  else [c]

/-- The inside of a string with escapes; `quotes` counts the quotes right
before, of which at most two may stand over several lines and none else. -/
def escapeFrom (multiline : Bool) (quotes : Nat) : List Char → List Char
  | [] => []
  | c :: cs =>
    if c = '"' then
      if quotes < (if multiline then 2 else 0) then '"' :: escapeFrom multiline (quotes + 1) cs
      else '\\' :: '"' :: escapeFrom multiline 0 cs
    else escapeChar multiline c ++ escapeFrom multiline 0 cs

/-- A string in a style. -/
def writeIn (s : Style) (cs : List Char) : List Char :=
  let delimiter := List.replicate (if s.multiline then 3 else 1) s.quote
  let first := if s.multiline && cs.contains '\n' then ['\n'] else []
  let inside := if s.escapes then escapeFrom s.multiline 0 cs else cs
  delimiter ++ first ++ inside ++ delimiter

def writeString (s : String) : String := String.ofList (writeIn (styleOf s.toList) s.toList)

/-! ## Entries -/

/-- A value other than a table or an array as it is written. -/
def writeScalar : Json → Option String
  | .str s => some (writeString s)
  | .int n => some (toString n)
  | .float x => some x.pointed
  | .bool b => some (if b then "true" else "false")
  | _ => none

/-- A key and its value on a line; nothing for a value that is not set. -/
def writeEntry (key : String) (v : Json) : String :=
  match writeScalar v with
  | some text => key ++ " = " ++ text ++ "\n"
  | none => ""

def writeSection (name : String) (entries : List (String × Json)) : String :=
  "[" ++ name ++ "]\n" ++ String.join (entries.map fun (k, v) => writeEntry k v)

def writeSections (ss : List (String × List (String × Json))) : String :=
  Text.joined "\n" (ss.map fun (name, entries) => writeSection name entries)

end LintPatrol.Toml
