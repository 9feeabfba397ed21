import LintPatrol.Failure

/-!
# LintPatrol.Git.Error

Why a revision could not be checked out.
-/

namespace LintPatrol

/-- Why a revision could not be checked out. -/
inductive GitError where
  | emptyRef (url : String)
  | init (dir reason : String)
  | addRemote (url reason : String)
  | fetchBranch (url branch reason : String)
  | checkout (url branch reason : String)
  | fetchCommit (url commit reason : String)
  | reset (url commit reason : String)
  | resolveHead (dir reason : String)
  | cancelled
deriving Repr, DecidableEq, Inhabited

namespace GitError

/-- The name of the kind of error. -/
def kind : GitError → String
  | emptyRef _ => "EmptyRef"
  | init .. => "Init"
  | addRemote .. => "AddRemote"
  | fetchBranch .. => "FetchBranch"
  | checkout .. => "Checkout"
  | fetchCommit .. => "FetchCommit"
  | reset .. => "Reset"
  | resolveHead .. => "ResolveHead"
  | cancelled => "Cancelled"

/-- What is reported of the error. -/
def message : GitError → String
  | emptyRef url => "Empty git reference for repo " ++ url
  | init dir reason => "Unable to init git in " ++ dir ++ ": " ++ reason
  | addRemote url reason => "Unable to add origin remote " ++ url ++ ": " ++ reason
  | fetchBranch url branch reason =>
    "Unable to fetch branch " ++ branch ++ " from " ++ url ++ ": " ++ reason
  | checkout url branch reason =>
    "Unable to checkout branch " ++ branch ++ " from " ++ url ++ ": " ++ reason
  | fetchCommit url commit reason =>
    "Unable to fetch revision " ++ commit ++ " from " ++ url ++ ": " ++ reason
  | reset url commit reason =>
    "Unable to hard reset to revision " ++ commit ++ " in " ++ url ++ ": " ++ reason
  | resolveHead dir reason => "Unable to resolve HEAD in " ++ dir ++ ": " ++ reason
  | cancelled => "Git operation cancelled"

/-- The causes of the error. -/
def causes : GitError → List String
  | resolveHead _ reason => [reason]
  | _ => []

def failure (e : GitError) : Failure := ⟨e.message, e.causes⟩

end GitError

end LintPatrol
