import LintPatrol.Checkout.Tree

/-!
# LintPatrol.Checkout.Write

Writing files by path, and the directory that a path leads into.
-/

namespace LintPatrol.Tree

/-- Does a path lead to anything? -/
def hasPath (t : Tree) (path : String) : Bool :=
  match t.resolve path with
  | .ok _ => true
  | .error _ => false

/-- Writes a file, in place of one that is there.  A path that ends with a
slash, with `.` or with `..` is one of a directory. -/
def write (t : Tree) (path : String) (content : List UInt8) : Except PathError Tree :=
  if path.toList.contains '\x00' then .error .nulByte
  else if path.isEmpty then .error .notFound
  else if pathLimit < path.utf8ByteSize then .error .nameTooLong
  else do
    let names := ((pieces path).reverse.dropWhile (· = "")).reverse
    let here ← names.dropLast.foldlM t.enter []
    let name := names.getLast?.getD ""
    if !t.isDirectory here then throw .notDirectory
    if path.endsWith "/" ∨ name = "." ∨ name = ".." then throw .isDirectory
    if nameLimit < name.utf8ByteSize then throw .nameTooLong
    if t.isDirectory (here ++ [name]) then throw .isDirectory
    return t.put (here ++ [name]) content

/-! ## The path of the directory -/

/-- Names without the empty ones and the `.` at their end. -/
def trimmedNames (names : List String) : List String :=
  (names.reverse.dropWhile fun p => p = "" ∨ p = ".").reverse

/-- The path of the directory that a path leads into; it is empty for a name
alone.  A root has none. -/
def parent? (path : String) : Option String :=
  match pieces path with
  | [] => none
  | first :: rest =>
    if (trimmedNames rest).isEmpty then if first = "" then none else some ""
    else
      let above := trimmedNames (trimmedNames rest).dropLast
      if above.isEmpty && first = "" then some "/" else some ("/".intercalate (first :: above))

end LintPatrol.Tree
