import Workflow.Yaml.Source

/-!
# Tokens of a YAML stream

The vocabulary that the stream of characters is cut into. Indentation is already turned into the
tokens that open and close block collections, and a key whose colon comes later already stands
behind a `key` token.
-/

namespace Workflow.Yaml

/-- A tag as it is written: a handle, which a directive may define, and a suffix. A tag between
angle brackets has an empty handle. -/
structure TagName where
  handle : List Char
  suffix : List Char
  deriving DecidableEq, Repr

inductive Token where
  | versionDirective (major minor : Nat)
  | tagDirective (handle expansion : List Char)
  | documentStart
  | documentEnd
  | blockSequenceStart
  | blockMappingStart
  | blockEnd
  | flowSequenceStart
  | flowSequenceEnd
  | flowMappingStart
  | flowMappingEnd
  | blockEntry
  | flowEntry
  | key
  | value
  | reference (name : List Char)
  | anchor (name : List Char)
  | tag (name : TagName)
  | scalar (plain : Bool) (text : List Char)
  deriving DecidableEq, Repr

end Workflow.Yaml
