import Std.Time.DateTime.Timestamp
import Workflow.Program

/-!
# The command line

Takes in the files that a command may look at, carries the command out, and puts what it says and
what it saves where they belong.
-/

namespace Workflow.CommandLine

/-- How deep folders are looked into. -/
def deepest : Nat := 16

/-- Takes in what is at a place, with everything inside a folder. -/
def takeAt : Nat → String → List String → Files → IO Files
  | 0, _, _, fs => return fs
  | depth + 1, path, place, fs => do
    try
      let text ← IO.FS.readFile path
      return fs.put place (.file text)
    catch _ =>
      try
        let inside ← (← IO.FS.realPath path).readDir
        let mut fs := fs.put place .folder
        for e in inside do
          fs ← takeAt depth (path ++ "/" ++ e.fileName) (place ++ [e.fileName]) fs
        return fs
      catch _ => return fs

/-- Takes in what a path leads to, and the folders on the way. -/
def take (path : String) (fs : Files) : IO Files := do
  let place := fs.place path
  let taken ← takeAt deepest path place fs
  if (taken.get? place).isNone then return fs
  else
    return (List.range place.length).foldl
      (fun fs i ↦ if (fs.get? (place.take i)).isNone then fs.put (place.take i) .folder else fs)
      taken

/-- Takes in the files that a command may look at. -/
def gather (arguments : List String) (s : Surroundings) : IO Surroundings := do
  match Invocation.ofArguments arguments with
  | .error _ => return s
  | .ok i =>
    let root := i.root.getD s.root
    let s := { s with files := ← take (Path.join root Settings.fileName) s.files }
    match Project.load s root with
    | .error _ => return s
    | .ok p =>
      let files ← (p.paths i.command).foldlM (fun fs path ↦ take path fs) s.files
      return { s with files }

/-- Writes the files that are new or changed. -/
def store (before after : Files) : IO Unit :=
  for (place, e) in after.entries do
    match e with
    | .folder => pure ()
    | .file text =>
      if before.get? place != some e then
        IO.FS.createDirAll ("/" ++ "/".intercalate place.dropLast)
        IO.FS.writeFile ("/" ++ "/".intercalate place) text

def dataFolder : IO String := do
  match ← IO.getEnv "PHASEFLOW_DATA_DIR" with
  | some folder => return folder
  | none =>
    match ← IO.getEnv "HOME" with
    | some home => return Path.join home ".phaseflow"
    | none => return ".phaseflow"

/-- The surroundings of the program before any file is looked at. -/
def surroundings : IO Surroundings := do
  let home := Path.steps (← IO.currentDir).toString
  let now := (← Std.Time.Timestamp.now).toMillisecondsSinceUnixEpoch.val.toNat
  let random := (← IO.getRandomBytes 10).toList.foldl (fun n b ↦ 256 * n + b.toNat) 0
  let files : Files := { home, entries := [(home, .folder)] }
  return {
    files
    root := (← IO.getEnv "PHASEFLOW_ROOT").getD files.homePath
    dataFolder := ← dataFolder
    runId := .ofTime now random
    time := .ofMilliseconds now }

end Workflow.CommandLine

open Workflow in
/-- Carries out the command line in the working folder. -/
def main (arguments : List String) : IO UInt32 := do
  let s ← CommandLine.gather arguments (← CommandLine.surroundings)
  let o := Program.answer arguments s
  for line in o.asides do
    IO.eprintln line
  for line in o.output do
    IO.println line
  CommandLine.store s.files o.files
  return UInt32.ofNat o.exit
