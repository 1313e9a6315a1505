import Workflow.Checkpoint.Saved
import Workflow.Files
import Workflow.Json.Printer

/-!
# Stores of checkpoints

A store is a folder with one file for every paused run, named after the workflow and the run. The
identifiers of runs grow with time, so the latest file of a workflow is the one with the greatest
name; `Store.runOf?` tells the files of a workflow from those of another one whose name goes on
after its own.
-/

namespace Workflow.Checkpoint

/-- Why a store does not do what was asked for. -/
inductive StoreError where
  | createFailed (folder : String)
  | writeFailed (path : String)
  | listFailed (folder : String)
  | readFailed (path : String)
  | notACheckpoint (path : String)
  deriving DecidableEq, Repr

def StoreError.message : StoreError → String
  | createFailed folder => "failed to create " ++ folder
  | writeFailed path => "failed to write " ++ path
  | listFailed folder => "failed to list " ++ folder
  | readFailed path => "failed to read checkpoint " ++ path
  | notACheckpoint path => path ++ " is not a checkpoint file"

/-- A folder of checkpoint files. -/
structure Store where
  folder : String
  deriving DecidableEq, Repr

namespace Store

/-- The name of the file of a run. -/
def fileName (workflow : String) (runId : Uuid) : String :=
  workflow ++ "-" ++ runId.text ++ ".json"

/-- The path of the file of a run. -/
def pathFor (store : Store) (workflow : String) (runId : Uuid) : String :=
  Path.join store.folder (fileName workflow runId)

/-- Saves a paused run. The answer is the path of its file; the folder is made if there is none, and
stays even if the file cannot be written. -/
def save (store : Store) (fs : Files) (s : SavedCheckpoint) : Except StoreError String × Files :=
  match fs.makeFolder store.folder with
  | .error _ => (.error (.createFailed store.folder), fs)
  | .ok fs =>
    let path := store.pathFor s.workflow s.runId
    match fs.write path s.toValue.pretty with
    | .error _ => (.error (.writeFailed path), fs)
    | .ok fs => (.ok path, fs)

/-- The run of a workflow that a file belongs to, by the name of the file. The identifier may be
written in any notation. -/
def runOf? (workflow name : String) : Option Uuid := do
  let rest ← Text.dropStart? (workflow ++ "-").toList name.toList
  let id ← Text.dropStart? ".json".toList.reverse rest.reverse
  Uuid.ofText? (String.ofList id.reverse)

def greatest? (names : List String) : Option String :=
  names.foldl
    (fun best name ↦
      match best with
      | some b => if b < name then some name else some b
      | none => some name) none

/-- The path of the latest file of a workflow. A folder that does not exist holds none. -/
def latest? (store : Store) (fs : Files) (workflow : String) :
    Except StoreError (Option String) :=
  match fs.list store.folder with
  | .error .notFound => .ok none
  | .error _ => .error (.listFailed store.folder)
  | .ok names =>
    .ok ((greatest? (names.filter fun n ↦ (runOf? workflow n).isSome)).map (Path.join store.folder))

end Store

def load (fs : Files) (path : String) : Except StoreError LoadedCheckpoint :=
  match fs.read path with
  | .error _ => .error (.readFailed path)
  | .ok text =>
    match LoadedCheckpoint.parse? text with
    | some loaded => .ok loaded
    | none => .error (.notACheckpoint path)

end Workflow.Checkpoint
