import Workflow.Yaml.Node.Document
import Workflow.Yaml.Schema

/-!
# Values of YAML documents

`Yaml.parse?` reads a text as a JSON value. Aliases are expanded where they stand, within a limit on
their number; keys are the text of their scalar, and the last of equal keys stays.
-/

namespace Workflow.Yaml

open Json (Value Members)

namespace Node

/-- How deep collections may nest. -/
def deepest : Nat := 128

/-- How many aliases may be followed for each mark of a document. -/
def aliasesPerMark : Nat := 100

/-- The number of aliases that may be followed in a document. -/
def aliasLimit (root : Node) : Nat := aliasesPerMark * root.size

/-- A computation that counts down the aliases it may still follow. -/
abbrev Expansion (α : Type) := StateT Nat Option α

/-- The node at a place, an alias followed. -/
def resolve (root : Node) (n : Node) : Expansion Node :=
  match n.bare with
  | .reference id => do
    match ← get with
    | 0 => failure
    | left + 1 =>
      set left
      let n ← (root.anchored? id : Option Node)
      return n.bare
  | n => return n

/-- Whether a tag belongs to an application; no collection with one is read. -/
def isForeign (tag : Option String) : Bool := tag.any fun t ↦ t.toList.head? == some '!'

/-- The text of a key, which is a scalar of any type. -/
def keyText (root : Node) (n : Node) : Expansion String := do
  match ← resolve root n with
  | .scalar _ _ text => return text
  | _ => failure

/-- The value of a node, which may nest a number of times. -/
def valueAt (root : Node) : Nat → Node → Expansion Value
  | depth, n => do
    match ← resolve root n with
    | .scalar tag plain text => (Schema.scalar? tag plain text : Option Value)
    | .sequence tag items =>
      match depth with
      | 0 => failure
      | depth + 1 =>
        if isForeign tag then failure
        return .array (← items.mapM (valueAt root depth))
    | .mapping tag entries =>
      match depth with
      | 0 => failure
      | depth + 1 =>
        if isForeign tag then failure
        let members ← entries.mapM fun (k, v) ↦ do
          return (← keyText root k, ← valueAt root depth v)
        return .object (Members.ofList members)
    | _ => failure

def value? (root : Node) : Option Value :=
  ((valueAt root deepest root).run root.aliasLimit).map (·.1)

end Node

/-- The value of a text; a text without a document is null. -/
def parse? (text : String) : Option Value := do
  match ← Document.ofText? text with
  | none => return .null
  | some root => root.value?

end Workflow.Yaml
