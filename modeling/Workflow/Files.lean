import Workflow.Files.Path

/-!
# Files

A value of `Files` is the state of a file system as far as a run can see it: files with their text
and folders, each under the names that lead to it from the root. Paths are followed step by step,
and `Files.Failure` tells the ways in which that ends without a file.
-/

namespace Workflow

/-- What a name leads to. -/
inductive Entry where
  | file (text : String)
  | folder
  deriving DecidableEq, Repr

/-- A file system with a folder that relative paths start from. -/
structure Files where
  home : List String := []
  entries : List (List String × Entry) := []

namespace Files

/-- Why a path does not give what was asked for. -/
inductive Failure where
  | notFound
  | notAFolder
  | isAFolder
  | nameTooLong
  | badName
  deriving DecidableEq, Repr

def Failure.message : Failure → String
  | notFound => "No such file or directory (os error 2)"
  | notAFolder => "Not a directory (os error 20)"
  | isAFolder => "Is a directory (os error 21)"
  | nameTooLong => "File name too long (os error 36)"
  | badName => "file name contained an unexpected NUL byte"

/-- The path of the folder that relative paths start from. -/
def homePath (fs : Files) : String := fs.home.foldl (fun path name ↦ path ++ "/" ++ name) ""

/-- The entry at a place; the root is a folder. -/
def get? (fs : Files) (place : List String) : Option Entry :=
  if place.isEmpty then some .folder else fs.entries.lookup place

/-- Puts an entry at a place. -/
def put (fs : Files) (place : List String) (e : Entry) : Files :=
  { fs with entries := (place, e) :: fs.entries.filter fun x ↦ x.1 != place }

/-- Takes away the entry at a place and all that lies in it. -/
def erase (fs : Files) (place : List String) : Files :=
  { fs with entries := fs.entries.filter fun x ↦ !place.isPrefixOf x.1 }

/-- The place that a path names, whether there is anything or not. -/
def place (fs : Files) (path : String) : List String :=
  (Path.steps path).foldl
    (fun place step ↦ if step == ".." then place.dropLast else place ++ [step])
    (if Path.isAbsolute path then [] else fs.home)

/-- The longest name, in bytes. -/
def longestName : Nat := 255

/-- Follows steps from a place, which has to be a folder. A dot stays there. -/
def follow (fs : Files) (place : List String) : List String → Except Failure (List String × Entry)
  | [] =>
    match fs.get? place with
    | some e => .ok (place, e)
    | none => .error .notFound
  | step :: steps =>
    match fs.get? place with
    | none => .error .notFound
    | some (.file _) => .error .notAFolder
    | some .folder =>
      if step == "." then fs.follow place steps
      else if step == ".." then fs.follow place.dropLast steps
      else if longestName < step.utf8ByteSize then .error .nameTooLong
      else fs.follow (place ++ [step]) steps

/-- The place and entry that a path leads to. A slash at the end asks for a folder. -/
def find (fs : Files) (path : String) : Except Failure (List String × Entry) :=
  if path == "" then .error .notFound
  else if path.toList.contains '\x00' then .error .badName
  else
    let start := if Path.isAbsolute path then [] else fs.home
    fs.follow start (Path.pieces path ++ if Path.endsWithSlash path then ["."] else [])

def isFile (fs : Files) (path : String) : Bool :=
  match fs.find path with
  | .ok (_, .file _) => true
  | _ => false

/-- The text of the file that a path leads to. -/
def read (fs : Files) (path : String) : Except Failure String :=
  match fs.find path with
  | .ok (_, .file text) => .ok text
  | .ok (_, .folder) => .error .isAFolder
  | .error e => .error e

def list (fs : Files) (path : String) : Except Failure (List String) :=
  match fs.find path with
  | .ok (place, .folder) => .ok (fs.entries.filterMap fun (p, _) ↦
      if p.dropLast = place then p.getLast? else none)
  | .ok (_, .file _) => .error .notAFolder
  | .error e => .error e

/-- Follows steps from a place and makes the folders that do not exist yet. -/
def makeSteps (fs : Files) (place : List String) :
    List String → Except Failure (Files × List String)
  | [] => .ok (fs, place)
  | step :: steps =>
    if step == "." then fs.makeSteps place steps
    else if step == ".." then fs.makeSteps place.dropLast steps
    else if longestName < step.utf8ByteSize then .error .nameTooLong
    else
      let next := place ++ [step]
      match fs.get? next with
      | some (.file _) => .error .notAFolder
      | some .folder => fs.makeSteps next steps
      | none => (fs.put next .folder).makeSteps next steps

/-- Makes a folder and those that lead to it. -/
def makeFolder (fs : Files) (path : String) : Except Failure Files :=
  if path.toList.contains '\x00' then .error .badName
  else
    let start := if Path.isAbsolute path then [] else fs.home
    (fs.makeSteps start (Path.pieces path)).map (·.1)

/-- Writes a file into a folder that exists. -/
def write (fs : Files) (path text : String) : Except Failure Files := do
  let start := if Path.isAbsolute path then [] else fs.home
  match (Path.pieces path).reverse with
  | [] => .error .isAFolder
  | name :: before =>
    if path.toList.contains '\x00' then .error .badName
    else if name == "." || name == ".." || Path.endsWithSlash path then .error .isAFolder
    else
      match ← fs.follow start before.reverse with
      | (_, .file _) => .error .notAFolder
      | (place, .folder) =>
        if longestName < name.utf8ByteSize then .error .nameTooLong
        else
          match fs.get? (place ++ [name]) with
          | some .folder => .error .isAFolder
          | _ => return fs.put (place ++ [name]) (.file text)

end Files

end Workflow
