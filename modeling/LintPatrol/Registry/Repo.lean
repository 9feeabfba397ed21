/-!
# LintPatrol.Registry.Repo

The repositories that are watched.  A repository is a branch to follow; once
the branch has been fetched, it also has the commit at its head.
-/

namespace LintPatrol

/-- A branch to follow. -/
structure RepoSource where
  id : String
  url : String
  branch : String
deriving Repr, DecidableEq, Inhabited

/-- A repository at a commit. -/
structure RepoRevision where
  id : String
  url : String
  commit : String
deriving Repr, DecidableEq, Inhabited

def RepoRevision.display (r : RepoRevision) : String :=
  "[" ++ r.id ++ "](" ++ r.url ++ ", " ++ r.commit ++ ")"

/-- A watched repository, with what its head was if it has been fetched. -/
inductive Repo where
  | unresolved (source : RepoSource)
  | resolved (source : RepoSource) (revision : RepoRevision)
deriving Repr, DecidableEq, Inhabited

namespace Repo

/-- The branch to follow. -/
def source : Repo → RepoSource
  | unresolved s => s
  | resolved s _ => s

/-- The head as last fetched. -/
def revision? : Repo → Option RepoRevision
  | unresolved _ => none
  | resolved _ r => some r

/-- The repository with a commit found at its head. -/
def resolve (r : Repo) (commit : String) : Repo :=
  resolved r.source ⟨r.source.id, r.source.url, commit⟩

@[simp] theorem source_resolve (r : Repo) (commit : String) :
    (r.resolve commit).source = r.source :=
  rfl

end Repo

/-- What is to be fetched from a repository. -/
inductive GitRef where
  | branch (name : String)
  | commit (hash : String)
deriving Repr, DecidableEq, Inhabited

namespace GitRef

/-- The name of the branch or commit. -/
def name : GitRef → String
  | branch n => n
  | commit h => h

/-- How a reference is shown. -/
def display : GitRef → String
  | branch n => "branch:" ++ n
  | commit h => "commit:" ++ h

end GitRef

end LintPatrol
