import LintPatrol.Toml.Scalar

/-!
# LintPatrol.Toml.Reader

Reads a TOML document: key by key into the table that the latest header
names.  Arrays and tables in braces may go over several lines and end with a
comma.
-/

namespace LintPatrol.Toml

/-! ## Space -/

def skipBlanks (cs : List Char) : List Char := cs.dropWhile fun c => c = ' ' || c = '\t'

/-- The rest behind a comment, if one begins here. -/
def skipComment : List Char → Option (List Char)
  | '#' :: cs =>
    let text := cs.takeWhile fun c => !isControl c
    let rest := cs.drop text.length
    if rest.isEmpty ∨ (newline? rest).isSome then some rest else none
  | cs => some cs

/-- Skips what may stand behind a value: blanks, a comment, and the end of the
line or of the text. -/
def endLine (cs : List Char) : Option (List Char) :=
  match skipComment (skipBlanks cs) with
  | some [] => some []
  | some rest => newline? rest
  | none => none

/-- Skips blanks, comments and line ends. -/
def skipSpace : (fuel : Nat) → List Char → Option (List Char)
  | 0, cs => some cs
  | fuel + 1, cs =>
    match skipComment (skipBlanks cs) with
    | none => none
    | some rest =>
      match newline? rest with
      | some rest => skipSpace fuel rest
      | none => some rest

def skipAll (cs : List Char) : Option (List Char) := skipSpace (cs.length + 1) cs

/-! ## Keys -/

def isBareChar (c : Char) : Bool :=
  ('a' ≤ c ∧ c ≤ 'z') ∨ ('A' ≤ c ∧ c ≤ 'Z') ∨ ('0' ≤ c ∧ c ≤ '9') ∨ c = '-' ∨ c = '_'

/-- Reads one part of a key. -/
def readPart : List Char → Option (String × List Char)
  | '"' :: cs => (readBasic (cs.length + 1) [] cs).map fun (s, cs) => (String.ofList s, cs)
  | '\'' :: cs => (readLiteral [] cs).map fun (s, cs) => (String.ofList s, cs)
  | cs =>
    let w := cs.takeWhile isBareChar
    if w.isEmpty then none else some (String.ofList w, cs.drop w.length)

/-- Reads a key: parts with points between them. -/
def readKey : (fuel : Nat) → List Char → Option (List String × List Char)
  | 0, _ => none
  | fuel + 1, cs =>
    match readPart (skipBlanks cs) with
    | none => none
    | some (k, cs) =>
      match skipBlanks cs with
      | '.' :: cs => (readKey fuel cs).map fun (ks, cs) => (k :: ks, cs)
      | cs => some ([k], cs)

/-! ## Values -/

mutual

/-- Reads a value. -/
def readValue : (fuel : Nat) → List Char → Option (Toml × List Char)
  | 0, _ => none
  | fuel + 1, cs =>
    match cs with
    | '"' :: _ | '\'' :: _ => (readString cs).map fun (s, cs) => (.string (String.ofList s), cs)
    | '[' :: cs => (readItems fuel cs).map fun (vs, cs) => (.array false vs, cs)
    | '\x7b' :: cs => (readPairs fuel [] cs).map fun (es, cs) => (.table .braces es, cs)
    | cs =>
      let (w, rest) := spanWord cs
      (word? w).map fun v => (v, rest)

/-- Reads the items of an array and its closing bracket. -/
def readItems : (fuel : Nat) → List Char → Option (List Toml × List Char)
  | 0, _ => none
  | fuel + 1, cs =>
    match skipAll cs with
    | none => none
    | some (']' :: cs) => some ([], cs)
    | some cs =>
      match readValue fuel cs with
      | none => none
      | some (v, cs) =>
        match skipAll cs with
        | some (',' :: cs) => (readItems fuel cs).map fun (vs, cs) => (v :: vs, cs)
        | some (']' :: cs) => some ([v], cs)
        | _ => none

/-- Reads the pairs of a table in braces and its closing brace. -/
def readPairs : (fuel : Nat) → Entries → List Char → Option (Entries × List Char)
  | 0, _, _ => none
  | fuel + 1, es, cs =>
    match skipAll cs with
    | none => none
    | some ('\x7d' :: cs) => some (es, cs)
    | some cs =>
      match readKey (cs.length + 1) cs with
      | some (key, '=' :: cs) =>
        match readValue fuel (skipBlanks cs) with
        | none => none
        | some (v, cs) =>
          match assign key v es with
          | none => none
          | some es =>
            match skipAll cs with
            | some (',' :: cs) => readPairs fuel es cs
            | some ('\x7d' :: cs) => some (es, cs)
            | _ => none
      | _ => none

end

/-! ## Documents -/

/-- A document in the course of reading. -/
structure Draft where
  path : List String
  entries : Entries
deriving Inhabited

/-- Reads one line: a header, or a key with its value, or nothing. -/
def readLine (d : Draft) (cs : List Char) : Option (Draft × List Char) :=
  match skipBlanks cs with
  | '[' :: '[' :: cs =>
    match readKey (cs.length + 1) cs with
    | some (path, ']' :: ']' :: cs) => do
      let es ← openItem path d.entries
      let cs ← endLine cs
      pure (⟨path, es⟩, cs)
    | _ => none
  | '[' :: cs =>
    match readKey (cs.length + 1) cs with
    | some (path, ']' :: cs) => do
      let es ← openTable path d.entries
      let cs ← endLine cs
      pure (⟨path, es⟩, cs)
    | _ => none
  | cs =>
    match endLine cs with
    | some rest => some (d, rest)
    | none =>
      match readKey (cs.length + 1) cs with
      | some (key, '=' :: cs) => do
        let (v, cs) ← readValue (cs.length + 1) (skipBlanks cs)
        let es ← assignUnder d.path key v d.entries
        let cs ← endLine cs
        pure (⟨d.path, es⟩, cs)
      | _ => none

/-- Reads line after line. -/
def readLines : (fuel : Nat) → Draft → List Char → Option Draft
  | 0, _, _ => none
  | fuel + 1, d, cs =>
    if cs.isEmpty then some d
    else
      match readLine d cs with
      | some (d, cs) => readLines fuel d cs
      | none => none

/-- The entries of the document that a text writes.  A byte order mark in front
is passed over. -/
def read (cs : List Char) : Option Entries :=
  let cs :=
    match cs with
    | '\uFEFF' :: cs => cs
    | cs => cs
  (readLines (cs.length + 1) ⟨[], []⟩ cs).map Draft.entries

end LintPatrol.Toml
