/-!
# LintPatrol.Highlight.Basic

What a linter points at: a range of lines in a file, with an explanation,
and the piece of code cut out around it.
-/

namespace LintPatrol

/-- A range of lines that a linter points at. -/
structure Highlight where
  path : String
  /-- The first line, counted from one. -/
  startLine : UInt64
  endLine : UInt64
  explanation : String
deriving Repr, DecidableEq, Inhabited

/-- Some lines of a file, without the indentation they share. -/
structure Snippet where
  startLine : UInt64
  endLine : UInt64
  code : String
deriving Repr, DecidableEq, Inhabited

/-- A highlight together with the code around it. -/
structure Finding where
  highlight : Highlight
  snippet : Snippet
deriving Repr, DecidableEq, Inhabited

end LintPatrol
