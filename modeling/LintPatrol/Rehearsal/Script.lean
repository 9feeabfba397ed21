import LintPatrol.Lint.Run
import LintPatrol.Scope.Wait
import LintPatrol.Task.Basic

/-!
# LintPatrol.Rehearsal.Script

Surroundings that follow a script, to rehearse a role in: what comes of
fetching a repository and of running an image is laid down beforehand, and
every request is noted.  A script may cancel the run when it sees a request,
wait until the scope of the request is at its end, or take away the checkout.
-/

namespace LintPatrol.Rehearsal

open Time

/-- A request to the surroundings. -/
inductive Event where
  | fetch (url : String) (ref : GitRef) (targetExists : Bool)
  | exec (image mount : String) (hostIsDirectory : Bool)
  | cleanup
deriving Repr, DecidableEq

/-- The kind of a request. -/
def Event.kind : Event → String
  | fetch .. => "fetch"
  | exec .. => "exec"
  | cleanup => "cleanup"

/-- What a request does besides being answered: it may take away the checkout, cancel
the run, or last until its scope is at its end, to be cut short then. -/
structure Conduct where
  removes : Bool
  cancels : Bool
  waits : Bool
deriving Repr, Inhabited

/-- What comes of fetching a repository. -/
structure Fetching where
  conduct : Conduct
  failure : Option GitError
  head : String
  /-- The files of the checkout with their paths; a directory has no content. -/
  files : List (String × Option (List UInt8))
deriving Inhabited

/-- What comes of running an image. -/
structure Running where
  conduct : Conduct
  failure : Option SandboxError
  lines : List String
deriving Inhabited

/-- The surroundings: what they do, and what they have seen. -/
structure Script where
  fetching : String → Fetching
  running : String → Running
  cleaning : Except SandboxError CleanupReport
  root : Scope
  cancelOn : Option (String × Nat)
  log : List Event

variable {δ : Type}

/-- Puts files into a directory. -/
def putFiles (dir : Place) (files : List (String × Option (List UInt8))) (t : Tree) : Tree :=
  files.foldl
    (fun t (path, content) =>
      match content with
      | some bytes => t.put (dir ++ Tree.placeOf path) bytes
      | none => t.makeDirectory (dir ++ Tree.placeOf path))
    t

/-- Is there a directory of that path? -/
def hasDirectory (dir : String) (w : World δ Script) : Bool :=
  match w.files.resolve dir with
  | .ok p => w.files.isDirectory p
  | .error _ => false

def cancel (w : World δ Script) : World δ Script :=
  { w with time := w.time.cancel w.outside.root.token }

/-- Notes a request. -/
def note (e : Event) (w : World δ Script) : World δ Script :=
  let log := w.outside.log ++ [e]
  let w := { w with outside := { w.outside with log := log } }
  if w.outside.cancelOn = some (e.kind, log.countP (·.kind = e.kind)) then cancel w else w

/-- The world once a request has begun. -/
def begin (e : Event) (c : Conduct) (s : Scope) (dir : String) (w : World δ Script) :
    World δ Script :=
  let w := note e w
  let w := if c.removes then w.closeCheckout dir else w
  let w := if c.cancels then cancel w else w
  if c.waits then { w with time := w.time.waitExpired s } else w

/-- Fetches a revision.  A request that takes away the checkout is answered at
once. -/
def fetch (s : Scope) (url : String) (ref : GitRef) (dir : String) (w : World δ Script) :
    Except GitError String × World δ Script :=
  let f := w.outside.fetching url
  let event := Event.fetch url ref (hasDirectory dir w)
  if f.conduct.removes then (.ok f.head, begin event ⟨true, false, false⟩ s dir w)
  else
    let w := begin event f.conduct s dir w
    if f.conduct.waits then (.error .cancelled, w)
    else
      match f.failure, ref with
      | some e, _ => (.error e, w)
      | none, .commit c => (.ok c, { w with files := putFiles (Tree.placeOf dir) f.files w.files })
      | none, .branch _ =>
        (.ok f.head, { w with files := putFiles (Tree.placeOf dir) f.files w.files })

/-- Runs an image. -/
def exec (s : Scope) (image mount dir : String) (w : World δ Script) :
    Except SandboxError (List String) × World δ Script :=
  let r := w.outside.running image
  let w := begin (.exec image mount (hasDirectory dir w)) r.conduct s dir w
  if r.conduct.waits then (.error .cancelled, w)
  else
    match r.failure with
    | some e => (.error e, w)
    | none => (.ok r.lines, w)

/-- Cleans up. -/
def cleanup (_ : Scope) (w : World δ Script) :
    Except SandboxError CleanupReport × World δ Script :=
  (w.outside.cleaning, note .cleanup w)

/-- The services of scripted surroundings, time having begun at an instant. -/
def services (keeper : Keeper δ) (dawn : Instant) : Services δ Script where
  keeper := keeper
  fetch := fetch
  exec := exec
  cleanup := cleanup
  clock t := ((Duration.ofNanos? t.now).bind dawn.after?).getD dawn
  taskName := TaskName.ofBits
  checkoutName n := "repo_clone_" ++ toString n

/-- A keeper whose queue fails: adding the tasks of some linters, taking any
task, or recording any result. -/
def failingKeeper (base : Keeper δ) (linters : List String) (take set : Bool) (e : StoreError) :
    Keeper δ :=
  { base with
    tryAdd := fun t now d =>
      if linters.contains t.linter.id then (.error e, d) else base.tryAdd t now d
    tryTake := fun horizon now d => if take then (.error e, d) else base.tryTake horizon now d
    set := fun t r now d => if set then (.error e, d) else base.set t r now d }

/-- The world before a rehearsal: an empty directory, beside it perhaps a file
where the scratch directory should be. -/
def world (script : Script) (time : Timeline) (data : δ) (named : Nat) (top : String)
    (blocked : Option String) : World δ Script :=
  let files := Tree.empty.makeDirectory [top]
  { time, data, named, outside := script
    files :=
      match blocked with
      | some name => files.put [top, name] []
      | none => files }

end LintPatrol.Rehearsal
