import LintPatrol.Text.Split
import LintPatrol.Text.Utf8

/-!
# LintPatrol.Checkout.Tree

A tree of files and directories, and how a path finds its way through it.  A
*place* is the list of names from the root down.  A tree lists the files by
place, and the directories that have to exist even if they are empty; every
place above a file is a directory as well.

A path is cut at its slashes.  Each piece is looked up in the directory
reached so far: an empty piece and `.` stay there, `..` goes up (and stays
at the root), and a name goes down.
-/

namespace LintPatrol

/-- A way down from the root, name by name. -/
abbrev Place := List String

/-- What stands at a place. -/
inductive Node where
  | file (content : List UInt8)
  | directory
deriving Repr, DecidableEq

/-- Why a file cannot be read, or written.  What should be a directory may be a file,
and the other way round; a name or the whole path may be too long. -/
inductive PathError where
  | notFound
  | notDirectory
  | isDirectory
  | nameTooLong
  | nulByte
  /-- A file has the name that a directory is to have. -/
  | alreadyThere
deriving Repr, DecidableEq

/-- What is reported of the error. -/
def PathError.message : PathError → String
  | .notFound => "No such file or directory (os error 2)"
  | .notDirectory => "Not a directory (os error 20)"
  | .isDirectory => "Is a directory (os error 21)"
  | .nameTooLong => "File name too long (os error 36)"
  | .nulByte => "file name contained an unexpected NUL byte"
  | .alreadyThere => "File exists (os error 17)"

/-- Files and directories. -/
structure Tree where
  files : List (Place × List UInt8)
  /-- Directories that exist by themselves. -/
  directories : List Place
deriving Repr, Inhabited

namespace Tree

def empty : Tree := ⟨[], []⟩

/-- What stands at a place; the root is always a directory. -/
def node? (t : Tree) (p : Place) : Option Node :=
  match t.files.find? (·.1 = p) with
  | some (_, content) => some (.file content)
  | none =>
    if p.isEmpty ∨ t.directories.any p.isPrefixOf ∨ t.files.any (p.isPrefixOf ·.1) then
      some .directory
    else none

def isDirectory (t : Tree) (p : Place) : Bool := t.node? p = some .directory

def put (t : Tree) (p : Place) (content : List UInt8) : Tree :=
  { t with files := (t.files.filter (·.1 ≠ p)) ++ [(p, content)] }

/-- Makes a directory at a place, and those above it. -/
def makeDirectory (t : Tree) (p : Place) : Tree :=
  if t.directories.contains p then t else { t with directories := t.directories ++ [p] }

/-- Takes away all that stands at a place or below; the directory above stays. -/
def remove (t : Tree) (p : Place) : Tree :=
  { files := t.files.filter fun f => !p.isPrefixOf f.1
    directories := p.dropLast :: t.directories.filter fun d => !p.isPrefixOf d }

/-- The names in a directory, each once, in no particular order. -/
def names (t : Tree) (p : Place) : List String :=
  let below := (t.files.map (·.1) ++ t.directories).filter fun q => p.isPrefixOf q && p ≠ q
  (below.filterMap fun q => q[p.length]?).eraseDups

/-! ## Paths -/

def nameLimit : Nat := 255

def pathLimit : Nat := 4095

def pieces (path : String) : List String := (Text.splitAt '/' path.toList).map String.ofList

/-- The place reached from a directory by one piece of a path. -/
def enter (t : Tree) (here : Place) (piece : String) : Except PathError Place :=
  if !t.isDirectory here then .error .notDirectory
  else if piece = "" ∨ piece = "." then .ok here
  else if piece = ".." then .ok here.dropLast
  else if nameLimit < piece.utf8ByteSize then .error .nameTooLong
  else
    let there := here ++ [piece]
    if (t.node? there).isSome then .ok there else .error .notFound

/-- The place a path leads to, from the root on. -/
def resolve (t : Tree) (path : String) : Except PathError Place :=
  if path.toList.contains '\x00' then .error .nulByte
  else if path.isEmpty then .error .notFound
  else if pathLimit < path.utf8ByteSize then .error .nameTooLong
  else (pieces path).foldlM t.enter []

/-- The content of the file a path leads to. -/
def read (t : Tree) (path : String) : Except PathError (List UInt8) := do
  let p ← t.resolve path
  match t.node? p with
  | some (.file content) => .ok content
  | some .directory => .error .isDirectory
  | none => .error .notFound

/-- Makes the directories that are missing on the way down some names. -/
def descend (t : Tree) (here : Place) : List String → Except PathError Tree
  | [] => .ok t
  | piece :: rest =>
    match t.enter here piece with
    | .ok there =>
      if rest.isEmpty && !t.isDirectory there then .error .alreadyThere else t.descend there rest
    | .error .notFound => (t.makeDirectory (here ++ [piece])).descend (here ++ [piece]) rest
    | .error e => .error e

/-- Makes the directory a path leads to, and those above it. -/
def createAll (t : Tree) (path : String) : Except PathError Tree :=
  if path.toList.contains '\x00' then .error .nulByte
  else if pathLimit < path.utf8ByteSize then .error .nameTooLong
  else t.descend [] ((pieces path).filter (· ≠ ""))

def isAbsolute (path : String) : Bool := path.toList.head? = some '/'

/-- A path continued by another one; an absolute path replaces the first. -/
def joinPath (dir path : String) : String :=
  if isAbsolute path then path
  else if dir.toList.getLast? = some '/' ∨ dir = "" then dir ++ path
  else dir ++ "/" ++ path

/-- The place a path names by itself, empty pieces and `.` left out. -/
def placeOf (path : String) : Place := (pieces path).filter fun p => p ≠ "" ∧ p ≠ "."

end Tree

end LintPatrol
