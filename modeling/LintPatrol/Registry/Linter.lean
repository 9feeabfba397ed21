/-!
# LintPatrol.Registry.Linter

The linters that are run.  A linter has sources of its own; once an image of
it has been published, it can be run.
-/

namespace LintPatrol

/-- Where a linter's own sources are. -/
structure LinterSource where
  id : String
  url : String
  branch : String
deriving Repr, DecidableEq, Inhabited

/-- A published image of a linter. -/
structure LinterImage where
  id : String
  image : String
  digest : String
deriving Repr, DecidableEq, Inhabited

namespace LinterImage

/-- The reference that pins the image to its digest.  An image that carries a
digest already, and one without digest, is referred to as it is; a digest
that names no algorithm is one of SHA-256. -/
def reference (l : LinterImage) : String :=
  if l.image.toList.contains '@' ∨ l.digest.isEmpty then l.image
  else if l.digest.toList.contains ':' then l.image ++ "@" ++ l.digest
  else l.image ++ "@sha256:" ++ l.digest

def display (l : LinterImage) : String := "[" ++ l.id ++ "](" ++ l.reference ++ ")"

end LinterImage

/-- A registered linter, with its published image if there is one. -/
inductive Linter where
  | unresolved (source : LinterSource)
  | resolved (source : LinterSource) (image : LinterImage)
deriving Repr, DecidableEq, Inhabited

namespace Linter

/-- Where the linter's own sources are. -/
def source : Linter → LinterSource
  | unresolved s => s
  | resolved s _ => s

/-- The published image. -/
def image? : Linter → Option LinterImage
  | unresolved _ => none
  | resolved _ i => some i

def images (ls : List Linter) : List LinterImage := ls.filterMap image?

end Linter

end LintPatrol
