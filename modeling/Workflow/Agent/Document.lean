import Workflow.Agent
import Workflow.Artifact
import Workflow.Frontmatter

/-!
# Documents of agents and prompts

An agent is a document whose header gives its name, description, tools and model and whose body is
its system prompt; a prompt is a document that may have a header. `Agent.load` and
`PromptText.load` find a document by name and read it.
-/

namespace Workflow

/-- Why an agent or a prompt cannot be had. -/
inductive LoadError where
  | unreadable (path : String) (failure : Files.Failure)
  | missingHeader (path : String)
  | invalidHeader (path : String)
  | unresolved (e : ResolutionError)
  deriving DecidableEq

def LoadError.message : LoadError → String
  | unreadable path failure => "failed to read " ++ path ++ ": " ++ failure.message
  | missingHeader path => path ++ " must start with YAML frontmatter delimited by '---'"
  | invalidHeader path => "invalid frontmatter in " ++ path ++ ": not a mapping of known fields"
  | unresolved e => e.message

def readDocument (fs : Files) (path : String) : Except LoadError String :=
  (fs.read path).mapError (.unreadable path)

/-- The body of a document without the blanks at its end. -/
def bodyText (body : List Char) : String := String.ofList (Text.trimEnd body)

namespace Agent

/-- What a header says about an agent whose name is the given one unless the header has another. -/
def ofHeader? (name : String) (h : Frontmatter.Header) (body : List Char) : Option Agent := do
  let named ← h.text? "name"
  let description ← h.text? "description"
  let tools ← h.names? "tools"
  let model ← h.text? "model"
  return ⟨named.getD name, description.getD "", tools.getD [], model, bodyText body⟩

/-- Reads the document of an agent at a path; the name of the file is the default name. -/
def parse (path document : String) : Except LoadError Agent :=
  match Frontmatter.split document.toList with
  | none => .error (.missingHeader path)
  | some (header, body) =>
    match (Frontmatter.Header.parse? header).bind (ofHeader? (Path.stem path) · body) with
    | some a => .ok a
    | none => .error (.invalidHeader path)

def load (t : Tiers) (fs : Files) (name : String) : Except LoadError Agent := do
  let r ← (t.resolve fs .agent name).mapError .unresolved
  parse r.path (← readDocument fs r.path)

end Agent

namespace PromptText

/-- What a header says about a prompt. -/
def ofHeader? (name : String) (h : Frontmatter.Header) (body : List Char) : Option PromptText := do
  let named ← h.text? "name"
  let description ← h.text? "description"
  return ⟨named.getD name, description.getD "", bodyText body⟩

/-- Reads the document of a prompt at a path. Without a header all of it is the body. -/
def parse (path document : String) : Except LoadError PromptText :=
  match Frontmatter.split document.toList with
  | none => .ok ⟨Path.stem path, "", bodyText document.toList⟩
  | some (header, body) =>
    match (Frontmatter.Header.parse? header).bind (ofHeader? (Path.stem path) · body) with
    | some p => .ok p
    | none => .error (.invalidHeader path)

def load (t : Tiers) (fs : Files) (name : String) : Except LoadError PromptText := do
  let r ← (t.resolve fs .prompt name).mapError .unresolved
  parse r.path (← readDocument fs r.path)

end PromptText

end Workflow
