import LintPatrol.Checkout.Tree
import LintPatrol.Database.Operations
import LintPatrol.Git.Error
import LintPatrol.Sandbox.Session
import LintPatrol.Scope.Basic

/-!
# LintPatrol.Role.World

What the scheduler and the workers act on, and with.  The world has the time,
the files, what is stored, and whatever else lies outside of the program;
fetching revisions and running containers are services that may change all
of it.  Stored data are reached through a `Keeper`.
-/

namespace LintPatrol

open Time

/-! ## Stored data -/

/-- The operations on stored data that the scheduler and the workers need. -/
structure Keeper (δ : Type) where
  listRepos : δ → Except StoreError (List Repo)
  putRepo : Repo → δ → Except StoreError Unit × δ
  listLinters : δ → Except StoreError (List Linter)
  tryAdd : Task → Instant → δ → Except StoreError Unit × δ
  /-- Takes a task; the arguments are the horizon and the time now. -/
  tryTake : Instant → Instant → δ → Except StoreError Task × δ
  set : Task → TaskResult → Instant → δ → Except StoreError Unit × δ

/-- The store by itself. -/
def Store.keeper : Keeper Store where
  listRepos s := .ok s.listRepos
  putRepo r s := (.ok (), s.putRepo r)
  listLinters s := .ok s.listLinters
  tryAdd := Store.tryAdd
  tryTake := Store.tryTake
  set := Store.set

/-- A database file. -/
def Database.keeper : Keeper Database where
  listRepos d := d.listRepos.mapError .database
  putRepo r d := (.ok (), d.putRepo r)
  listLinters d := d.listLinters.mapError .database
  tryAdd := Database.tryAdd
  tryTake := Database.tryTake
  set := Database.set

/-! ## The world -/

/-- The world: `δ` is what is stored, `ε` is what lies outside.  Names of tasks and
checkouts go by how many have been handed out. -/
structure World (δ ε : Type) where
  time : Timeline
  files : Tree
  data : δ
  named : Nat
  outside : ε

/-- What a role acts with. -/
structure Services (δ ε : Type) where
  keeper : Keeper δ
  /-- Fetches a revision into a directory; gives the commit that it is. -/
  fetch : Scope → (url : String) → GitRef → (dir : String) → World δ ε →
    Except GitError String × World δ ε
  /-- Runs an image with a directory mounted; gives its lines of output. -/
  exec : Scope → (image mount dir : String) → World δ ε →
    Except SandboxError (List String) × World δ ε
  cleanup : Scope → World δ ε → Except SandboxError CleanupReport × World δ ε
  clock : Timeline → Instant
  taskName : Nat → String
  checkoutName : Nat → String

namespace World

variable {δ ε α : Type}

/-- Does something with stored data, unless the scope is at its end. -/
def call (s : Scope) (f : δ → α × δ) (w : World δ ε) : Option α × World δ ε :=
  if w.time.isExpired s then (none, w)
  else
    let (a, d) := f w.data
    (some a, { w with data := d })

/-- Looks at stored data, unless the scope is at its end. -/
def look (s : Scope) (f : δ → α) (w : World δ ε) : Option α :=
  if w.time.isExpired s then none else some (f w.data)

/-! ## Checkouts -/

/-- Makes a directory for a checkout in the scratch directory. -/
def openCheckout (name : Nat → String) (scratch : String) (w : World δ ε) :
    Except Failure (String × World δ ε) :=
  match w.files.createAll scratch with
  | .error e => .error ⟨"Failed to create " ++ scratch, [e.message]⟩
  | .ok files =>
    let dir := Tree.joinPath scratch (name w.named)
    match files.createAll dir with
    | .error e => .error ⟨"Failed to create checkout directory", [e.message]⟩
    | .ok files => .ok (dir, { w with files := files, named := w.named + 1 })

/-- Removes the directory of a checkout, if it is still one. -/
def closeCheckout (dir : String) (w : World δ ε) : World δ ε :=
  match w.files.resolve dir with
  | .ok p => { w with files := if w.files.isDirectory p then w.files.remove p else w.files }
  | .error _ => w

end World

/-! ## A host that is cut off -/

/-- The services of a host that is cut off; `socket` is where the daemon
should listen. -/
def Services.isolated {δ : Type} (keeper : Keeper δ) (socket : String) (now : Instant) :
    Services δ Unit where
  keeper := keeper
  fetch _ _ _ dir w := (.error (.init dir PathError.notFound.message), w)
  exec _ _ _ _ w := (.error (.connect socket PathError.notFound.message), w)
  cleanup _ w := (.error (.connect socket PathError.notFound.message), w)
  clock _ := now
  taskName n := toString n
  checkoutName n := "repo_clone_" ++ toString n

end LintPatrol
