import Workflow.Text.Split

/-!
# Paths

A path is text. Its names are what stands between slashes, where an empty name and a dot stand for
no step at all. Joining and completing paths looks at the text alone and never at any file.
-/

namespace Workflow.Path

/-- The pieces of a path between slashes, without the empty ones. -/
def pieces (p : String) : List String :=
  ((Text.splitOn '/' p.toList).map String.ofList).filter (· != "")

/-- The steps of a path: names, and two dots for the folder above. -/
def steps (p : String) : List String := (pieces p).filter (· != ".")

def isAbsolute (p : String) : Bool := p.toList.head? == some '/'

def endsWithSlash (p : String) : Bool := p.toList.getLast? == some '/'

/-- A path taken relative to another one; an absolute path stays as it is. -/
def join (base p : String) : String :=
  if isAbsolute p then p
  else if base == "" || endsWithSlash base then base ++ p
  else base ++ "/" ++ p

/-- The last name of a path. Two dots are no name. -/
def fileName? (p : String) : Option String := (steps p).getLast?.filter (· != "..")

/-- A name up to its last dot; a dot that begins the name does not count. -/
def stemOf (name : String) : String :=
  match name.toList.reverse.span (· != '.') with
  | (_, []) | (_, ['.']) => name
  | (_, _ :: before) => String.ofList before.reverse

/-- What follows the last dot of a name; a dot that begins the name does not count. -/
def extensionOf? (name : String) : Option String :=
  match name.toList.reverse.span (· != '.') with
  | (_, []) | (_, ['.']) => none
  | (after, _) => some (String.ofList after.reverse)

/-- The extension of the file that a path leads to. -/
def extension? (p : String) : Option String := (fileName? p).bind extensionOf?

/-- The name of the file that a path leads to, without its extension; empty if there is no name. -/
def stem (p : String) : String := ((fileName? p).map stemOf).getD ""

/-- A path completed from the root: single steps are joined by one slash, and two dots stay. -/
def complete (home p : String) : String :=
  let start := if isAbsolute p then "" else home
  let text := (steps p).foldl (fun acc step ↦ acc ++ "/" ++ step) start
  if text == "" then "/"
  else if endsWithSlash p then text ++ "/"
  else text

end Workflow.Path
