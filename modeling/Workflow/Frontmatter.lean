import Workflow.Text.Blank
import Workflow.Text.Split
import Workflow.Yaml.Value

/-!
# Documents with a header

A document may begin with a header of YAML between two lines of dashes. `Frontmatter.split` takes
header and body apart by the text alone. `Frontmatter.Header` is the header as a list of fields,
from which typed values are read: a text field takes a scalar of any type as it is written.
-/

namespace Workflow.Frontmatter

open Json (Value)

/-! ## Header and body -/

/-- What the lines around a header start with. -/
def fence : List Char := ['-', '-', '-']

/-- The rest of a text after a line break it starts with. -/
def afterBreak? (s : List Char) : Option (List Char) :=
  match s with
  | '\r' :: '\n' :: r => some r
  | '\n' :: r => some r
  | _ => none

/-- The text before the first line that starts with a fence, and what follows that fence. -/
def untilFence? (s : List Char) : Option (List Char × List Char) :=
  match Text.dropStart? fence s with
  | some rest => some ([], rest)
  | none => (Text.breakOn ('\n' :: fence) s).map fun (before, rest) ↦ (before ++ ['\n'], rest)

/-- The body after the fence that closes a header: what follows its line, without the line breaks
it starts with. -/
def bodyAfter (s : List Char) : List Char :=
  ((s.dropWhile (· != '\n')).drop 1).dropWhile fun c ↦ c == '\n' || c == '\r'

/-- The header and the body of a document that has a header. -/
def split (document : List Char) : Option (List Char × List Char) := do
  let (header, rest) ← untilFence? (← afterBreak? (← Text.dropStart? fence document))
  return (header, bodyAfter rest)

/-! ## Fields -/

/-- The fields of a header, with the tree that aliases refer to. -/
structure Header where
  root : Yaml.Node
  fields : List (String × Yaml.Node)

namespace Header

def empty : Header := ⟨.empty, []⟩

/-- Reads a header. Blank text and text with comments only have no field; everything else has to be
a mapping. -/
def parse? (text : List Char) : Option Header := do
  if text.all Text.isBlank then return empty
  match ← Yaml.Document.ofText? (String.ofList text) with
  | none => return empty
  | some root =>
    match root.bare with
    | .mapping _ entries =>
      let fields ← entries.mapM fun (k, v) ↦ do
        let (key, _) ← (root.keyText k).run root.aliasLimit
        return (key, v)
      return ⟨root, fields⟩
    | _ => none

/-- The node of a field, which may stand only once, an alias followed. -/
def field? (h : Header) (name : String) : Option (Option Yaml.Node) :=
  match h.fields.filter fun f ↦ f.1 == name with
  | [] => some none
  | [(_, n)] => ((h.root.resolve n).run h.root.aliasLimit).map fun (n, _) ↦ some n
  | _ => none

/-- Whether a node stands for no value. A null that is asked for by its tag has to be spelled so. -/
def isAbsent? : Yaml.Node → Option Bool
  | .scalar tag true text =>
    let blank := Yaml.Schema.isNull text
    if tag == some "tag:yaml.org,2002:null" then (if blank then some true else none)
    else some (tag.isNone && (blank || text == ""))
  | _ => some false

/-- A field of text; a scalar of any type counts as it is written. -/
def text? (h : Header) (name : String) : Option (Option String) := do
  match ← h.field? name with
  | none => return none
  | some n =>
    if ← isAbsent? n then return none
    match n with
    | .scalar _ _ text => return some text
    | _ => none

/-- A field that lists names, as a sequence of strings or as one string with commas. -/
def names? (h : Header) (name : String) : Option (Option (List String)) := do
  match ← h.field? name with
  | none => return none
  | some n =>
    if ← isAbsent? n then return none
    let (v, _) ← (h.root.valueAt Yaml.Node.deepest n).run h.root.aliasLimit
    match v with
    | .array xs => some (← xs.mapM Value.string?)
    | .string s =>
      let names := (Text.splitOn ',' s.toList).map Text.trim
      return some ((names.filter (· != [])).map String.ofList)
    | _ => none

end Header

end Workflow.Frontmatter
