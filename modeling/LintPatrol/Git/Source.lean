import LintPatrol.Git.Command

/-!
# LintPatrol.Git.Source

Repositories with a history in one line, and what becomes of a directory when
a revision of one is checked out into it: `Source` is the repository that is
fetched from, `Clone` the directory.  This is as much of git as checking out a
revision needs: finding what a name stands for, which names a branch may
have, and how a working tree is overwritten.
-/

namespace LintPatrol.Git

/-! ## Sources -/

/-- Files with their paths. -/
abbrev Files := List (String × List UInt8)

/-- The files with others written over them. -/
def Files.overwrite (files new : Files) : Files :=
  files.filter (fun f => !(new.any (·.1 = f.1))) ++ new

/-- A repository to fetch from. -/
structure Source where
  /-- The files of each commit; each commit follows the one before. -/
  commits : List Files
  branches : List (String × Nat)
  main : String
deriving Repr

namespace Source

/-- The source of some commits, each writing over the one before, with a
branch at the last one and perhaps others. -/
def ofChanges (changes : List Files) (main : String) (branches : List (String × Nat)) : Source :=
  let commits := (changes.foldl (fun (done, last) new =>
    let next := Files.overwrite last new
    (done ++ [next], next)) (([], []) : List Files × Files)).1
  { commits, main
    branches := branches ++ if commits.isEmpty then [] else [(main, commits.length - 1)] }

/-- The name of a commit: 40 hexadecimal digits. -/
def hash (commit : Nat) : String :=
  let digits := Nat.toDigits 16 (commit + 1)
  String.ofList (List.replicate (40 - digits.length) 'c' ++ digits)

def branch? (s : Source) (name : String) : Option Nat := (s.branches.find? (·.1 = name)).map (·.2)

/-- The commit a full name of a branch stands for. -/
def ref? (s : Source) (name : String) : Option Nat :=
  (Text.after? "refs/heads/".toList name.toList).bind fun b => s.branch? (String.ofList b)

/-- The commit that a name stands for when it is asked for. -/
def find? (s : Source) (name : String) : Option Nat :=
  if name = "" ∨ name = "@" ∨ name = "HEAD" then s.branch? s.main
  else
    match (List.range s.commits.length).find? (hash · = name) with
    | some n => some n
    | none => ["", "refs/", "refs/tags/", "refs/heads/"].findSome? fun p => s.ref? (p ++ name)

end Source

/-! ## Names of branches -/

/-- The characters that no branch has in its name. -/
def forbidden : List Char := ['~', '^', ':', '?', '*', '[', '\\', ' ']

/-- May a branch have that name? -/
def isBranchName (name : String) : Bool :=
  let cs := name.toList
  let parts := Text.splitAt '/' cs
  let within (s : String) : Bool := (Text.cutAt s.toList cs).isSome
  name ≠ "HEAD" && name ≠ "@" && cs.head? ≠ some '-' && cs.getLast? ≠ some '.' &&
    !within ".." && !within "@\x7b" &&
    (cs.all fun c => ' ' < c && c.toNat ≠ 127 && !forbidden.contains c) &&
    parts.all fun p =>
      !p.isEmpty && p.head? ≠ some '.' && !(".lock".toList.isSuffixOf p)

/-! ## Clones -/

/-- The options of `fetch` that have no argument and do not keep it from
fetching the main branch. -/
def fetchOptions : List String :=
  ["-q", "--quiet", "-v", "--verbose", "-a", "--append", "-f", "--force", "-t", "--tags", "-n",
    "--no-tags", "-p", "--prune", "-P", "--prune-tags", "-k", "--keep", "-u", "--update-head-ok",
    "-4", "-6", "--ipv4", "--ipv6", "--progress"]

/-- A directory that a revision is checked out into. -/
structure Clone where
  source : Option Source
  isOver : Bool
  isRepository : Bool
  fetched : Option Nat
  head : Option Nat
  files : Files
deriving Repr

namespace Clone

/-- A directory with some files. -/
def ofFiles (source : Option Source) (isOver : Bool) (files : Files) : Clone :=
  { source, isOver, files, isRepository := false, fetched := none, head := none }

/-- Does one of the paths lead through the other? -/
def collides (p q : String) : Bool :=
  let p := (Text.splitAt '/' p.toList)
  let q := (Text.splitAt '/' q.toList)
  p.isPrefixOf q || q.isPrefixOf p

/-- The directory with a commit checked out: its files take the place of what
is in their way, and all other files stay. -/
def checkOut (c : Clone) (s : Source) (commit : Nat) : Clone :=
  let new := (s.commits[commit]?).getD []
  { c with
    head := some commit
    files := c.files.filter (fun f => !(new.any fun g => collides f.1 g.1)) ++ new }

def success (c : Clone) : Ending × Clone := (.exited 0 [], c)

def fault (c : Clone) : Ending × Clone := (.exited 128 [], c)

/-- Fetches what a name stands for: an option, or a source and perhaps a
target for what is fetched. -/
def fetchName (c : Clone) (name : String) : Ending × Clone :=
  match c.source with
  | none => c.fault
  | some s =>
    if name.startsWith "-" then
      if fetchOptions.contains name then { c with fetched := s.branch? s.main }.success else c.fault
    else
      let cs := name.toList
      let unforced := (Text.after? ['+'] cs).getD cs
      match s.find? (String.ofList (unforced.takeWhile (· ≠ ':'))) with
      | some n => { c with fetched := some n }.success
      | none => c.fault

/-- The program that works on clones. -/
def program : Program Clone where
  run arguments c :=
    match arguments with
    | ["init", "-q"] => { c with isRepository := true }.success
    | ["remote", "add", "origin", _] => c.success
    | ["fetch", "-q", "origin", name] => c.fetchName name
    | ["checkout", "-q", "--force", "-B", branch, "FETCH_HEAD"] =>
      match c.source, c.fetched with
      | some s, some n => if isBranchName branch then (c.checkOut s n).success else c.fault
      | _, _ => c.fault
    | ["reset", "-q", "--hard", commit] =>
      match c.source, c.fetched with
      | some s, some n =>
        if commit = "HEAD" ∨ commit = "-q" ∨ commit = "--quiet" then c.success
        else if Source.hash n = commit then (c.checkOut s n).success
        else c.fault
      | _, _ => c.fault
    | _ => c.fault
  head c :=
    match c.head with
    | some n => .ok (Source.hash n)
    | none => .error "no commit is checked out"
  isLive c := !c.isOver

end Clone

end LintPatrol.Git
