import LintPatrol.Number.Binary64

/-!
# LintPatrol.Toml.Value

TOML values.  A table remembers how it came to be, because that decides how
it may still grow: a table that a header names is named once, one that
dotted keys made grows by dotted keys only, and a table written in braces is
complete.
-/

namespace LintPatrol

/-- How a table came to be: on the way to one that a header names, by a header, on the
way of a dotted key, or written in braces. -/
inductive Toml.Origin where
  /-- On the way to a table that a header names. -/
  | implied
  | header
  | dotted
  | braces
deriving Repr, DecidableEq

/-- A TOML value. -/
inductive Toml where
  | string (s : String)
  | integer (n : Int)
  | float (x : Number.Binary64)
  | boolean (b : Bool)
  | datetime
  /-- An array, perhaps of tables that headers name. -/
  | array (byHeaders : Bool) (items : List Toml)
  | table (origin : Toml.Origin) (entries : List (String × Toml))
deriving Repr, Inhabited

namespace Toml

/-- The entries of a table, in the order written. -/
abbrev Entries := List (String × Toml)

def lookup (key : String) (es : Entries) : Option Toml := (es.find? (·.1 == key)).map (·.2)

/-- The entries with another value for a key that has one. -/
def replace (key : String) (v : Toml) : Entries → Entries
  | [] => []
  | (k, w) :: es => if k = key then (k, v) :: es else (k, w) :: replace key v es

/-- The entries with one more key, which must be new. -/
def addNew (key : String) (v : Toml) (es : Entries) : Option Entries :=
  if (lookup key es).isSome then none else some (es ++ [(key, v)])

/-- Changes the table a path leads to, tables that are missing on the way
being made.  A path of headers goes through every table that is not in
braces and through the last table of an array of headers; a path of dotted
keys goes only through tables that no header names. -/
def descend (dotted : Bool) : (path : List String) → (Entries → Option Entries) → Entries →
    Option Entries
  | [], f, es => f es
  | k :: ks, f, es =>
    match lookup k es with
    | none =>
      (descend dotted ks f []).map fun sub =>
        es ++ [(k, .table (if dotted then .dotted else .implied) sub)]
    | some (.table .braces _) => none
    | some (.table origin sub) =>
      if dotted ∧ origin = .header then none
      else (descend dotted ks f sub).map fun sub => replace k (.table origin sub) es
    | some (.array true items) =>
      if dotted then none
      else
        match items.getLast? with
        | some (.table origin sub) =>
          (descend dotted ks f sub).map fun sub =>
            replace k (.array true (items.dropLast ++ [.table origin sub])) es
        | _ => none
    | some _ => none

/-- Adds a key and its value to a table; all of the key but its last part
leads to the table that gets the value. -/
def assign (key : List String) (v : Toml) (es : Entries) : Option Entries :=
  match key.getLast? with
  | none => none
  | some k => descend true key.dropLast (addNew k v) es

/-- Makes the table that a header names. -/
def openTable (path : List String) (es : Entries) : Option Entries :=
  match path.getLast? with
  | none => none
  | some k =>
    descend false path.dropLast
      (fun es =>
        match lookup k es with
        | none => some (es ++ [(k, .table .header [])])
        | some (.table .implied sub) => some (replace k (.table .header sub) es)
        | some _ => none)
      es

/-- Makes one more table of the array that a header names. -/
def openItem (path : List String) (es : Entries) : Option Entries :=
  match path.getLast? with
  | none => none
  | some k =>
    descend false path.dropLast
      (fun es =>
        match lookup k es with
        | none => some (es ++ [(k, .array true [.table .header []])])
        | some (.array true items) =>
          some (replace k (.array true (items ++ [.table .header []])) es)
        | some _ => none)
      es

/-- Adds a key and its value to the table that the latest header names. -/
def assignUnder (path key : List String) (v : Toml) (es : Entries) : Option Entries :=
  descend false path (assign key v) es

end Toml

end LintPatrol
