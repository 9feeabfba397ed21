import LintPatrol.Checkout.Tree
import LintPatrol.Database.Basic
import LintPatrol.Database.Row
import LintPatrol.Json.Reader
import LintPatrol.Json.Writer

/-!
# LintPatrol.Database.File

Database files and how they are opened.  The content of a file is a JSON
object with the rows of every table, each row an object of its cells, and the
damaged cells; an empty file holds an empty store.

Some paths name no file: the empty one and `:memory:` stand for a store that
is gone when it is closed.  On the way to a file a `..` takes back the name
before it, whatever that name stands for.
-/

namespace LintPatrol

open Time

/-! ## Content -/

namespace Cell

/-- A cell in JSON; bytes are a list of numbers. -/
def toJson : Cell → Json
  | null => .null
  | integer n => .int n
  | text s => .str s
  | blob bytes => .arr (bytes.map fun b => .int b.toNat)

/-- Reads a cell. -/
def ofJson? : Json → Option Cell
  | .null => some null
  | .int n => some (integer n)
  | .str s => some (text s)
  | .arr items => (items.mapM Json.int?).map fun ns => blob (ns.map fun n => UInt8.ofNat n.toNat)
  | _ => none

def rowToJson (cells : List (String × Cell)) : Json := .obj (cells.map fun (k, c) => (k, c.toJson))

/-- Reads the cells of a row. -/
def rowOfJson? : Json → Option (List (String × Cell))
  | .obj members => members.mapM fun (k, v) => (ofJson? v).map (k, ·)
  | _ => none

end Cell

/-- A row in JSON: its table and its name, or its place. -/
def RowRef.toJson : RowRef → Json
  | repo id => .obj [("repo", .str id)]
  | linter id => .obj [("linter", .str id)]
  | task id => .obj [("task", .str id)]
  | finding i => .obj [("finding", .int i)]

/-- Reads which row is meant. -/
def RowRef.ofJson? : Json → Option RowRef
  | .obj [("repo", .str id)] => some (repo id)
  | .obj [("linter", .str id)] => some (linter id)
  | .obj [("task", .str id)] => some (task id)
  | .obj [("finding", .int i)] => some (finding i.toNat)
  | _ => none

def Damage.toJson (x : Damage) : Json := .arr [x.row.toJson, .str x.column, x.cell.toJson]

/-- Reads a damaged cell. -/
def Damage.ofJson? : Json → Option Damage
  | .arr [row, .str column, cell] => return ⟨← RowRef.ofJson? row, column, ← Cell.ofJson? cell⟩
  | _ => none

namespace Database

/-- The content of a file in JSON. -/
def toJson (d : Database) : Json :=
  .obj
    [("repos", .arr (d.store.repos.map fun r => Cell.rowToJson r.cells)),
      ("linters", .arr (d.store.linters.map fun r => Cell.rowToJson r.cells)),
      ("lint_tasks", .arr (d.store.tasks.map fun r => Cell.rowToJson r.cells)),
      ("lint_highlights", .arr (d.store.findings.map fun r => Cell.rowToJson r.cells)),
      ("damage", .arr (d.damage.map Damage.toJson))]

/-- Reads the rows of a table. -/
def table? {α : Type} (ofCells? : List (String × Cell) → Option α) (name : String) (v : Json) :
    Option (List α) := do
  ((← (v.field? name).bind Json.arr?)).mapM fun row => (Cell.rowOfJson? row).bind ofCells?

/-- Reads the content of a file. -/
def ofJson? (v : Json) : Option Database := do
  let store : Store :=
    { repos := ← table? RepoRow.ofCells? "repos" v
      linters := ← table? LinterRow.ofCells? "linters" v
      tasks := ← table? TaskRow.ofCells? "lint_tasks" v
      findings := ← table? FindingRow.ofCells? "lint_highlights" v }
  return ⟨store, ← (← (v.field? "damage").bind Json.arr?).mapM Damage.ofJson?⟩

def toBytes (d : Database) : List UInt8 := Text.Utf8.bytes d.toJson.compact

/-- Reads the bytes of a file. -/
def ofBytes? (bytes : List UInt8) : Option Database :=
  if bytes.isEmpty then some (ofStore .empty)
  else ((Text.Utf8.decode? bytes).bind Json.read).bind ofJson?

/-! ## Places -/

/-- What a path of a database stands for. -/
inductive Location where
  | memory
  | file (place : Place)
deriving Repr, DecidableEq

/-- The greatest length of a path, in bytes. -/
def pathLimit : Nat := 512

/-- The place one name further down; nothing is below a file. -/
def enter? (t : Tree) (here : Place) (piece : String) : Option Place :=
  if piece = "" ∨ piece = "." then some here
  else if piece = ".." then some here.dropLast
  else if Tree.nameLimit < piece.utf8ByteSize then none
  else
    match t.node? here with
    | some (.file _) => none
    | _ => some (here ++ [piece])

/-- What a path stands for when it is looked up in a directory. -/
def locate? (t : Tree) (directory path : String) : Option Location :=
  if path = "" ∨ path = ":memory:" then some .memory
  else
    let full := Tree.joinPath directory path
    if pathLimit < full.utf8ByteSize then none
    else ((Tree.pieces full).foldlM (enter? t) []).map .file

/-! ## Opening -/

/-- What comes of opening a database. -/
inductive Opening where
  | opened (d : Database) (at_ : Location)
  | refused (reason : Failure)
  | crashed (at_ : Location)
deriving Repr

/-- The longest time, in milliseconds, to wait for another process. -/
def busyLimit : Nat := 0x7FFFFFFF

/-- The failure of a path that leads to no file that could be opened. -/
def cannotOpen (path : String) : Failure :=
  ⟨"Failed to open SQLite database " ++ path,
    ["unable to open database file: " ++ path, "Error code 14: Unable to open the database file"]⟩

/-- The failure of a path with a NUL character. -/
def nulInPath (path : String) : Failure :=
  let before := path.toList.takeWhile (· ≠ '\x00')
  let reason :=
    "nul byte found in provided data at position: " ++ toString (Text.Utf8.encode before).length
  ⟨"Failed to open SQLite database " ++ path, [reason, reason]⟩

/-- The failure of a file that holds something else. -/
def notADatabase : Failure :=
  ⟨"Failed to enable WAL journal",
    ["file is not a database", "Error code 26: File opened that is not a database file"]⟩

/-- Opens the database of a path, looked up in a directory.  A file that is
missing is made. -/
def openAt (t : Tree) (directory path : String) (busyTimeout : Duration) : Opening :=
  if path.toList.contains '\x00' then .refused (nulInPath path)
  else
    match locate? t directory path with
    | none => .refused (cannotOpen path)
    | some .memory =>
      if busyLimit < busyTimeout.millis then .crashed .memory
      else .opened (ofStore .empty) .memory
    | some (.file place) =>
      if !t.isDirectory place.dropLast || t.isDirectory place then .refused (cannotOpen path)
      else if busyLimit < busyTimeout.millis then .crashed (.file place)
      else
        match t.node? place with
        | some (.file bytes) =>
          match ofBytes? bytes with
          | some d => .opened d (.file place)
          | none => .refused notADatabase
        | _ => .opened (ofStore .empty) (.file place)

/-- The files once the program has broken down: a file that was missing has
been made, and is empty. -/
def abandon (at_ : Location) (t : Tree) : Tree :=
  match at_ with
  | .memory => t
  | .file place => if (t.node? place).isSome then t else t.put place []

/-- The files once the database has been closed. -/
def close (d : Database) (at_ : Location) (t : Tree) : Tree :=
  match at_ with
  | .memory => t
  | .file place => t.put place d.toBytes

end Database

end LintPatrol
