import Workflow.Definition.Validate
import Workflow.Files
import Workflow.Yaml.Value
import Workflow.Yaml.Writer

/-!
# Documents of workflows

A workflow is written down as YAML or as JSON, which is read as YAML too. `Definition.parse` reads a
document and validates it; `Definition.write` writes one that says the same.
-/

namespace Workflow

/-- Why a document is no workflow. -/
inductive DefinitionError where
  | unreadableFile (path : String) (failure : Files.Failure)
  | unreadable
  | invalid (fault : Fault)
  deriving DecidableEq

def DefinitionError.message : DefinitionError → String
  | unreadableFile path failure => "failed to read " ++ path ++ ": " ++ failure.message
  | unreadable => "parse error: not a YAML document"
  | invalid fault => "invalid workflow definition: " ++ fault.path ++ ": " ++ fault.message

namespace Definition

def parse (text : String) : Except DefinitionError Definition :=
  match Yaml.parse? text with
  | none => .error .unreadable
  | some v => (validate v).mapError .invalid

def write (d : Definition) : String := Yaml.write d.toValue

def load (fs : Files) (path : String) : Except DefinitionError Definition :=
  match fs.read path with
  | .error failure => .error (.unreadableFile path failure)
  | .ok text => parse text

end Definition

end Workflow
