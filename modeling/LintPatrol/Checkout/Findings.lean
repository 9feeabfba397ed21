import LintPatrol.Checkout.Component
import LintPatrol.Highlight.Excerpt

/-!
# LintPatrol.Checkout.Findings

Cutting out the code around highlights of many files.  The files are taken
in the byte order of their paths, each of them is read once, and the
highlights of one file stay in their order.
-/

namespace LintPatrol.Excerpt

/-- Adds a highlight to the group of its path, the groups being in the order
of their paths. -/
def insertByPath (h : Highlight) :
    List (String × List Highlight) → List (String × List Highlight)
  | [] => [(h.path, [h])]
  | (p, hs) :: gs =>
    if p = h.path then (p, hs ++ [h]) :: gs
    else if h.path < p then (h.path, [h]) :: (p, hs) :: gs
    else (p, hs) :: insertByPath h gs

/-- The highlights by path, paths ascending. -/
def groupByPath (hs : List Highlight) : List (String × List Highlight) :=
  hs.foldl (fun gs h => insertByPath h gs) []

section Opening

variable {m : Type → Type} [Monad m]

/-- Cuts the code around the highlights of one file of a directory, `openFile`
being how a path is opened and read. -/
def ofPathBy (openFile : String → m (Except PathError (List UInt8))) (dir path : String)
    (hs : List Highlight) : ExceptT ExcerptError m (List Finding) :=
  if !Tree.isContained path then throw (.pathOutside path)
  else do
    let full := Tree.joinPath dir path
    match ← openFile full with
    | .error e => throw (.unreadable full e.message)
    | .ok content => ExceptT.mk (pure (ofFile (Text.Utf8.decodeLossy content) hs))

/-- Cuts the code around highlights out of the files of a directory, `openFile`
being how a path is opened and read. -/
def ofDirectoryBy (openFile : String → m (Except PathError (List UInt8))) (dir : String)
    (hs : List Highlight) : ExceptT ExcerptError m (List Finding) := do
  let parts ← (groupByPath hs).mapM fun (path, hs) => ofPathBy openFile dir path hs
  pure parts.flatten

end Opening

/-- Cuts the code around the highlights of one file of a directory of a tree. -/
def ofPath (t : Tree) (dir path : String) (hs : List Highlight) :
    Except ExcerptError (List Finding) :=
  Id.run (ofPathBy (fun path => pure (t.read path)) dir path hs).run

/-- Cuts the code around highlights out of the files of a directory of a tree. -/
def ofDirectory (t : Tree) (dir : String) (hs : List Highlight) :
    Except ExcerptError (List Finding) :=
  Id.run (ofDirectoryBy (fun path => pure (t.read path)) dir hs).run

end LintPatrol.Excerpt
