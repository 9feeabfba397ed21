import LintPatrol.Json.Record
import LintPatrol.Registry.Linter
import LintPatrol.Registry.Repo

/-!
# LintPatrol.Codec.Registry

Repositories and linters in JSON.  The member `state` says which of the two
forms follows: the fields of the source beside it, or the source and what it
was resolved to under names of their own.  Such a value may also be a list
whose first item is the state.
-/

namespace LintPatrol.Codec

open Json

/-! ## Parts -/

def sourceFields : List String := ["id", "git_url", "git_branch"]

def repoSourceMembers (s : RepoSource) : List (String × Json) :=
  [("id", .str s.id), ("git_url", .str s.url), ("git_branch", .str s.branch)]

def ofRepoRevision (r : RepoRevision) : Json :=
  .obj [("id", .str r.id), ("git_url", .str r.url), ("git_commit_hash", .str r.commit)]

def linterSourceMembers (s : LinterSource) : List (String × Json) :=
  [("id", .str s.id), ("git_url", .str s.url), ("git_branch", .str s.branch)]

def ofLinterImage (i : LinterImage) : Json :=
  .obj [("id", .str i.id), ("docker_image", .str i.image), ("docker_image_sha_hash", .str i.digest)]

/-- Reads a record of three strings. -/
def threeStrings (names : List String) (v : Json) : Option (String × String × String) := do
  match ← fields .exact names v with
  | [a, b, c] => pure (← required str? a, ← required str? b, ← required str? c)
  | _ => none

def repoSource? (v : Json) : Option RepoSource :=
  (threeStrings sourceFields v).map fun (id, url, branch) => ⟨id, url, branch⟩

/-- Reads a revision. -/
def repoRevision? (v : Json) : Option RepoRevision :=
  (threeStrings ["id", "git_url", "git_commit_hash"] v).map fun (id, url, commit) =>
    ⟨id, url, commit⟩

def linterSource? (v : Json) : Option LinterSource :=
  (threeStrings sourceFields v).map fun (id, url, branch) => ⟨id, url, branch⟩

/-- Reads a published image. -/
def linterImage? (v : Json) : Option LinterImage :=
  (threeStrings ["id", "docker_image", "docker_image_sha_hash"] v).map fun (id, image, digest) =>
    ⟨id, image, digest⟩

/-! ## Tagged values -/

/-- The state that a value names, and the value without it. -/
def tagged : Json → Option (String × Json)
  | .obj members => do
    let state ← (member? "state" members).bind str?
    pure (state, .obj (members.filter (·.1 ≠ "state")))
  | .arr (.str state :: rest) => some (state, .arr rest)
  | _ => none

/-- A repository. -/
def ofRepo : Repo → Json
  | .unresolved s => .obj (("state", .str "meta_only") :: repoSourceMembers s)
  | .resolved s r =>
    .obj
      [("state", .str "resolved"), ("meta", .obj (repoSourceMembers s)),
       ("instance", ofRepoRevision r)]

/-- Reads a repository. -/
def repo? (v : Json) : Option Repo := do
  let (state, v) ← tagged v
  if state = "meta_only" then (repoSource? v).map .unresolved
  else if state = "resolved" then
    match ← fields .exact ["meta", "instance"] v with
    | [s, r] => pure (.resolved (← required repoSource? s) (← required repoRevision? r))
    | _ => none
  else none

/-- A linter. -/
def ofLinter : Linter → Json
  | .unresolved s => .obj (("state", .str "meta_only") :: linterSourceMembers s)
  | .resolved s i =>
    .obj
      [("state", .str "resolved"), ("meta", .obj (linterSourceMembers s)),
       ("instance", ofLinterImage i)]

/-- Reads a linter. -/
def linter? (v : Json) : Option Linter := do
  let (state, v) ← tagged v
  if state = "meta_only" then (linterSource? v).map .unresolved
  else if state = "resolved" then
    match ← fields .exact ["meta", "instance"] v with
    | [s, i] => pure (.resolved (← required linterSource? s) (← required linterImage? i))
    | _ => none
  else none

end LintPatrol.Codec
