import Workflow.Files
import Workflow.Json.Decode

/-!
# Named artifacts

Workflows, agents and prompts are found by name, in the folder of a project first and among the
built-in ones second. A name leads only to files that lie directly in the folder of its kind, since
no name with a slash is looked up at all; the first file in the order of `Tiers.candidates` counts.
-/

namespace Workflow

/-- What a name can name. -/
inductive ArtifactKind where
  | workflow
  | agent
  | prompt
  deriving DecidableEq, Repr

namespace ArtifactKind

/-- The name of a kind in messages and arguments. -/
def text : ArtifactKind → String
  | workflow => "workflow"
  | agent => "agent"
  | prompt => "prompt"

def folder : ArtifactKind → String
  | workflow => "workflows"
  | agent => "agents"
  | prompt => "prompts"

/-- The extensions of the files, the preferred one first. -/
def extensions : ArtifactKind → List String
  | workflow => ["yaml", "yml"]
  | agent | prompt => ["md"]

def byName : List (String × ArtifactKind) :=
  [("workflow", workflow), ("agent", agent), ("prompt", prompt)]

def decode : Json.Decoder ArtifactKind := Json.Decoder.variant byName

end ArtifactKind

/-- Where an artifact was found. -/
inductive Tier where
  | project
  | builtin
  deriving DecidableEq, Repr

def Tier.text : Tier → String
  | project => "project"
  | builtin => "builtin"

/-- Why a name leads to no file. -/
inductive ResolutionError where
  | notFound (kind : ArtifactKind) (name : String) (searched : List String)
  | invalidName (kind : ArtifactKind) (name : String)
  deriving DecidableEq

def ResolutionError.message : ResolutionError → String
  | notFound kind name searched =>
    kind.text ++ " '" ++ name ++ "' not found (searched: " ++ ", ".intercalate searched ++ ")"
  | invalidName kind name => "invalid " ++ kind.text ++ " name '" ++ name ++ "'"

/-- A file that a name leads to. -/
structure Resolution where
  path : String
  tier : Tier
  deriving DecidableEq

/-- The folders that are searched. -/
structure Tiers where
  project : String
  builtin : Option String := none

namespace Tiers

/-- The paths that a name of a kind may stand for in a folder. -/
def candidatesIn (folder : String) (kind : ArtifactKind) (name : String) : List String :=
  kind.extensions.map fun extension ↦
    Path.join (Path.join folder kind.folder) (name ++ "." ++ extension)

/-- The paths that a name may stand for, in the order in which they are tried. -/
def candidates (t : Tiers) (kind : ArtifactKind) (name : String) : List (Tier × String) :=
  (candidatesIn t.project kind name).map (Tier.project, ·) ++
    (t.builtin.toList.flatMap fun folder ↦ candidatesIn folder kind name).map (Tier.builtin, ·)

/-- Whether a name can be looked up. A slash of either kind would lead out of the folder. -/
def isName (name : String) : Bool :=
  name != "" && name != "." && name != ".." && name.toList.all fun c ↦ c != '/' && c != '\\'

/-- The first file that a name of a kind may stand for. -/
def resolve (t : Tiers) (fs : Files) (kind : ArtifactKind) (name : String) :
    Except ResolutionError Resolution :=
  if !isName name then .error (.invalidName kind name)
  else
    let tried := t.candidates kind name
    match tried.find? fun c ↦ fs.isFile c.2 with
    | some (tier, path) => .ok ⟨Path.complete fs.homePath path, tier⟩
    | none => .error (.notFound kind name (tried.map (·.2)))

end Tiers

end Workflow
