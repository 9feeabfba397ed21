import LintPatrol.Checkout.Tree

/-!
# LintPatrol.Checkout.Component

What a path is made of, as far as it can be told without a tree: the root if the
path begins with a slash, then its names and the steps up.  Slashes that are
repeated or stand at the end say nothing, and neither does `.` but for one that
the path begins with.
-/

namespace LintPatrol

/-- A part of a path. -/
inductive Component where
  | root
  | current
  | up
  | name (s : String)
deriving Repr, DecidableEq

/-- The part of a path that a name is, or `..`. -/
def Component.ofName (s : String) : Component := if s = ".." then .up else .name s

/-- Does the part lead nowhere but down? -/
def Component.isInward : Component → Bool
  | .current | .name _ => true
  | .root | .up => false

namespace Tree

/-- What a path begins with before its names. -/
def origin (path : String) : List Component :=
  if isAbsolute path then [.root]
  else if (pieces path).head? = some "." then [.current]
  else []

def components (path : String) : List Component :=
  origin path ++ (placeOf path).map Component.ofName

/-- Does the path stay where it starts: relative, and never going up? -/
def isContained (path : String) : Bool := (components path).all Component.isInward

end Tree

end LintPatrol
