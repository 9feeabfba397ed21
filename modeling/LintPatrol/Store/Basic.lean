import LintPatrol.Store.Error
import LintPatrol.Store.Rows

/-!
# LintPatrol.Store.Basic

The store: watched repositories, registered linters, tasks and findings.
This module has the register of repositories and linters; there is at most
one row of each name, lists come in the order of names.  Every operation
gives its result with the store that it leaves; one that fails leaves the
store as it was.
-/

namespace LintPatrol

open Time

/-- Puts a row into a table: in place of the first row that is hit, and at
the end if none is. -/
def putRow {α : Type} (hit : α → Bool) (update : Option α → α) : List α → List α
  | [] => [update none]
  | r :: rs => if hit r then update (some r) :: rs else r :: putRow hit update rs

/-- What is stored. -/
structure Store where
  repos : List RepoRow
  linters : List LinterRow
  tasks : List TaskRow
  /-- The findings, the oldest first. -/
  findings : List FindingRow
deriving Repr, DecidableEq, Inhabited

namespace Store

def empty : Store := ⟨[], [], [], []⟩

/-! ## Repositories -/

def repoRows (s : Store) : List RepoRow := s.repos.mergeSort fun a b => !(b.id < a.id : Bool)

def listRepos (s : Store) : List Repo := s.repoRows.map RepoRow.read

def getRepo (s : Store) (id : String) : Option Repo := (s.repos.find? (·.id = id)).map RepoRow.read

def putRepo (repo : Repo) (s : Store) : Store :=
  { s with repos := putRow (·.id = repo.source.id) (RepoRow.update repo) s.repos }

/-- Removes the repository of that name; says whether there was one. -/
def deleteRepo (id : String) (s : Store) : Bool × Store :=
  (s.repos.any (·.id = id), { s with repos := s.repos.filter (·.id ≠ id) })

/-! ## Linters -/

def linterRows (s : Store) : List LinterRow := s.linters.mergeSort fun a b => !(b.id < a.id : Bool)

def listLinters (s : Store) : List Linter := s.linterRows.map LinterRow.read

def getLinter (s : Store) (id : String) : Option Linter :=
  (s.linters.find? (·.id = id)).map LinterRow.read

def putLinter (linter : Linter) (s : Store) : Store :=
  { s with linters := putRow (·.id = linter.source.id) (LinterRow.update linter) s.linters }

/-- Removes the linter of that name; says whether there was one. -/
def deleteLinter (id : String) (s : Store) : Bool × Store :=
  (s.linters.any (·.id = id), { s with linters := s.linters.filter (·.id ≠ id) })

end Store

end LintPatrol
