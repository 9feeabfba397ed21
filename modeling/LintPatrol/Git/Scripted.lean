import LintPatrol.Git.Command

/-!
# LintPatrol.Git.Scripted

A program that takes every command and does nothing, except that one of them
may end as laid down beforehand.  It is there to rehearse what becomes of
commands that fail.
-/

namespace LintPatrol.Git

/-- The directory that a script works in. -/
inductive Target where
  | missing
  | empty
  | checkedOut
deriving Repr, DecidableEq

/-- What a program does, and what it has seen. -/
structure Script where
  isMissing : Bool
  isOver : Bool
  target : Target
  /-- The command that fails, counted from nought, and how it ends. -/
  failure : Option (Nat × Ending)
  log : List (List String)
deriving Repr

/-- The commit that a script finds checked out. -/
def Script.commit : String := "HEAD"

/-- The program that follows a script. -/
def Script.program : Program Script where
  run arguments s :=
    if s.isMissing || s.target = .missing then
      (.unstarted "No such file or directory (os error 2)", s)
    else
      let ending :=
        match s.failure with
        | some (n, e) => if n = s.log.length then e else .exited 0 []
        | none => .exited 0 []
      (ending, { s with log := s.log ++ [arguments] })
  head s := if s.target = .checkedOut then .ok commit else .error "no commit is checked out"
  isLive s := !s.isOver

end LintPatrol.Git
