import LintPatrol.Config.Record
import LintPatrol.Text.Utf8
import LintPatrol.Toml.Reader
import LintPatrol.Toml.Writer

/-!
# LintPatrol.Config.Text

The text of a configuration file.  `ofText` reads TOML, `toText` writes all
settings that are set.
-/

namespace LintPatrol

mutual

/-- A TOML value as a JSON value.  A date or time is a record of which no
field is known. -/
def Toml.toJson : Toml → Json
  | .string s => .str s
  | .integer n => .int n
  | .float x => .float x
  | .boolean b => .bool b
  | .datetime => .obj []
  | .array _ items => .arr (Toml.itemsToJson items)
  | .table _ es => .obj (Toml.entriesToJson es)

/-- The items of an array as JSON values. -/
def Toml.itemsToJson : List Toml → List Json
  | [] => []
  | v :: vs => v.toJson :: Toml.itemsToJson vs

/-- The entries of a table as JSON members. -/
def Toml.entriesToJson : List (String × Toml) → List (String × Json)
  | [] => []
  | (k, v) :: es => (k, v.toJson) :: Toml.entriesToJson es

end

namespace Config

def defaultFile : String := "bughunt.toml"

/-- The failure of a text that is no configuration. -/
def malformed : Failure := ⟨"Failed to parse bughunt.toml", ["TOML parse error"]⟩

/-- Reads the text of a configuration file. -/
def ofText (cs : List Char) : Except Failure Config :=
  match (Toml.read cs).bind fun es => ofJson .any (.obj (Toml.entriesToJson es)) with
  | some c => .ok c
  | none => .error malformed

/-- The text of a configuration file with all settings that are set. -/
def toText (c : Config) : String := Toml.writeSections c.sections

/-- What a configuration file is found to hold. -/
inductive Source where
  | missing
  | unreadable (reason : String)
  | content (bytes : List UInt8)
deriving Repr, DecidableEq

/-- Reads a configuration file; `path` is the way it is reported. -/
def load (path : String) (source : Source) : Except Failure Config :=
  let unreadable (reason : String) : Except Failure Config :=
    .error ⟨"Failed to read config file: " ++ path, [reason]⟩
  match source with
  | .missing => unreadable "No such file or directory (os error 2)"
  | .unreadable reason => unreadable reason
  | .content bytes =>
    match Text.Utf8.decode? bytes with
    | none => unreadable "stream did not contain valid UTF-8"
    | some cs => (ofText cs).mapError (·.within ("Invalid config file: " ++ path))

/-- Reads a configuration file, or the defaults if there is none. -/
def loadOrDefault (path : String) : Source → Except Failure Config
  | .missing => .ok {}
  | source => load path source

end Config

end LintPatrol
