import LintPatrol.Cli.Run
import Std.Time.DateTime.Timestamp

/-!
# LintPatrol.Main

The program.  It looks up on disk what a command line can touch, carries the
command out on that, and writes back what has changed.  A role goes on after
its pause.
-/

namespace LintPatrol.Main

open Cli

def onDisk (p : Place) : String := "/" ++ "/".intercalate p

/-- The places on the way that a path takes. -/
def waypoints (path : String) : List Place :=
  ((Tree.placeOf path).foldl
    (fun (here, seen) piece =>
      let there := if piece = ".." then here.dropLast else here ++ [piece]
      (there, seen ++ [there]))
    (([] : Place), ([] : List Place))).2

/-- Adds what stands on disk along a path. -/
def lookUp (path : String) (t : Tree) : IO Tree := do
  let root ← IO.currentDir
  (waypoints path).foldlM
    (fun t p => do
      if (t.node? p).isSome then return t
      if ← (root / onDisk p).isDir then return t.makeDirectory p
      match ← (IO.FS.readBinFile (onDisk p)).toBaseIO with
      | .ok bytes => return t.put p bytes.toList
      | .error _ => return t)
    t

/-- The paths, from the settings on, that a command can touch. -/
def touched (c : Config) (h : Host) : List String :=
  ([c.storage.path] ++ c.scheduler.scratchDir.toList ++ c.worker.scratchDir.toList).map h.path

/-- The host as far as a command line can touch it. -/
def hostFor (words : List String) : IO Host := do
  let directory := (← IO.currentDir).toString
  let environment ← (sharedOptions.map (·.2)).filterMapM fun name => do
    return (← IO.getEnv name).map (name, ·)
  let now ← Std.Time.Timestamp.now
  let h : Host :=
    { directory, environment
      files := ← lookUp directory .empty
      scratch := (← IO.getEnv "TMPDIR").getD "/tmp"
      now := .ofMillis now.toMillisecondsSinceUnixEpoch.toInt }
  match Invocation.ofWords environment words with
  | .error _ => return h
  | .ok i =>
    let h := { h with files := ← lookUp (h.path i.config) h.files }
    match h.config i with
    | .error _ => return h
    | .ok c =>
      let files ← ((h.scratch :: touched c h)).foldlM (fun t p => lookUp p t) h.files
      return { h with files }

/-- Writes what has changed. -/
def writeBack (before after : Tree) : IO Unit := do
  for p in after.directories do
    unless before.isDirectory p do IO.FS.createDirAll (onDisk p)
  for (p, content) in after.files do
    unless before.node? p = some (.file content) do
      IO.FS.writeBinFile (onDisk p) content.toByteArray

/-- The words on how the program is used. -/
def usage : String :=
  "Usage: bughunt [OPTIONS] <COMMAND>\n\nCommands: " ++ ", ".intercalate (levelAt []).commands

/-- Carries out a command line; a role begins another iteration after its
pause. -/
partial def go (words : List String) : IO UInt32 := do
  let h ← hostFor words
  let (outcome, after) := Cli.run words h
  writeBack h.files after.files
  IO.print outcome.output
  IO.eprint outcome.complaint
  match outcome with
  | .usage => IO.eprintln usage
  | .help => IO.println usage
  | .resting pause =>
    IO.sleep (UInt32.ofNat pause.millis)
    return ← go words
  | _ => pure ()
  return UInt32.ofNat outcome.code

end LintPatrol.Main

def main (args : List String) : IO UInt32 := LintPatrol.Main.go args
