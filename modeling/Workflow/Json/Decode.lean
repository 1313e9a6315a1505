import Workflow.Json.Value
import Workflow.Text.Quoted

/-!
# Typed reading of values

A decoder reads a typed record out of a value or says why it cannot. Records are read by
`Record.fields`: an object has its members checked in their order and its missing fields reported
afterwards, in the order of the declaration; an array gives the fields by position.
`Record.fields_object` says what an accepted object amounts to.
-/

namespace Workflow.Json

/-- Why a value does not have the shape that was asked for. -/
inductive DecodeError where
  | wrongKind (found : Value) (expected : String)
  | badValue (found : Value) (expected : String)
  | badLength (length : Nat) (expected : String)
  | unknownVariant (found : String) (known : List String)
  | missingField (name : String)
  | repeatedField (name : String)
  | noVariant (choice : String)
  | unreadable (reason : String)
  deriving DecidableEq

namespace DecodeError

/-- How a message names a value that it did not expect. -/
def describe : Value → String
  | .null => "null"
  | .bool b => if b then "boolean `true`" else "boolean `false`"
  | .number (.int n) => "integer `" ++ (Number.int n).text ++ "`"
  | .number (.float x) => "floating point `" ++ (Number.float x).text ++ "`"
  | .string s => "string " ++ Text.quoted s
  | .array _ => "sequence"
  | .object _ => "map"

private def ticked (name : String) : String := "`" ++ name ++ "`"

/-- How a message lists the variants it knows. -/
def alternatives : List String → String
  | [] => "there are no variants"
  | [a] => "expected " ++ ticked a
  | [a, b] => "expected " ++ ticked a ++ " or " ++ ticked b
  | known => "expected one of " ++ ", ".intercalate (known.map ticked)

def message : DecodeError → String
  | wrongKind found expected => "invalid type: " ++ describe found ++ ", expected " ++ expected
  | badValue found expected => "invalid value: " ++ describe found ++ ", expected " ++ expected
  | badLength n expected => "invalid length " ++ toString n ++ ", expected " ++ expected
  | unknownVariant found known => "unknown variant " ++ ticked found ++ ", " ++ alternatives known
  | missingField name => "missing field " ++ ticked name
  | repeatedField name => "duplicate field " ++ ticked name
  | noVariant choice => "data did not match any variant of untagged enum " ++ choice
  | unreadable reason => reason

end DecodeError

/-- Reads a typed value. -/
abbrev Decoder (α : Type) := Value → Except DecodeError α

namespace Decoder

variable {α : Type}

def any : Decoder Value := .ok

def text : Decoder String
  | .string s => .ok s
  | v => .error (.wrongKind v "a string")

def flag : Decoder Bool
  | .bool b => .ok b
  | v => .error (.wrongKind v "a boolean")

/-- A natural number of some bits; the name of the type is what messages call it. -/
def natural (bits : Nat) (name : String) : Decoder Nat
  | .number (.int n) =>
    if Bits.fitsUnsigned bits n then .ok n.toNat
    else .error (.badValue (.number (.int n)) name)
  | v => .error (.wrongKind v name)

def optional (d : Decoder α) : Decoder (Option α)
  | .null => .ok none
  | v => (d v).map some

def list (d : Decoder α) : Decoder (List α)
  | .array xs => xs.mapM d
  | v => .error (.wrongKind v "a sequence")

/-- An object with values of any kind. -/
def members : Decoder (Members Value)
  | .object ms => .ok ms
  | v => .error (.wrongKind v "a map")

/-- One of several names, written as a string or as the only key of an object that holds null. -/
def variant (known : List (String × α)) : Decoder α :=
  let find (name : String) : Except DecodeError α :=
    match Members.get? name known with
    | some a => .ok a
    | none => .error (.unknownVariant name (known.map (·.1)))
  fun
    | .string s => find s
    | .object [(name, inner)] => do
      let a ← find name
      if inner.isNull then return a else throw (.wrongKind inner "unit")
    | .object ms => .error (.badValue (.object ms) "map with a single key")
    | v => .error (.wrongKind v "string or map")

end Decoder

/-! ## Records -/

/-- A field of a record. -/
structure RecordField (α : Type) where
  name : String
  read : Decoder α
  /-- What the field is when the record leaves it out; without it the field is required. -/
  absent : Option α := none
  /-- Other names the field goes by. -/
  aliases : List String := []

namespace RecordField

variable {α : Type}

/-- A field that may be null or left out. -/
def optional (name : String) (d : Decoder α) : RecordField (Option α) :=
  ⟨name, d.optional, some none, []⟩

/-- A field with a value for when it is left out. -/
def withDefault (name : String) (d : Decoder α) (a : α) : RecordField α := ⟨name, d, some a, []⟩

end RecordField

/-- What reading a record needs to know of a field. -/
structure FieldRule where
  name : String
  aliases : List String
  required : Bool
  check : Value → Except DecodeError Unit

def RecordField.rule {α : Type} (f : RecordField α) : FieldRule :=
  ⟨f.name, f.aliases, f.absent.isNone, fun v ↦ (f.read v).map fun _ ↦ ()⟩

namespace Record

/-- The rule a name belongs to. -/
def ruleFor (rules : List FieldRule) (name : String) : Option FieldRule :=
  rules.find? fun r ↦ r.name == name || r.aliases.contains name

/-- Checks members in order and files them under the names of their fields. Members of other names
are passed over. -/
def fromMembers (rules : List FieldRule) (seen : Members Value) :
    List (String × Value) → Except DecodeError (Members Value)
  | [] =>
    match rules.find? fun r ↦ r.required && !seen.contains r.name with
    | some r => .error (.missingField r.name)
    | none => .ok seen
  | (name, v) :: ms =>
    match ruleFor rules name with
    | none => fromMembers rules seen ms
    | some r =>
      if seen.contains r.name then .error (.repeatedField r.name)
      else do
        r.check v
        fromMembers rules (seen ++ [(r.name, v)]) ms

/-- Files items under the names of the fields they stand for, from the field at a position on. -/
def fromItems (expected : String) (count : Nat) (seen : Members Value) :
    List FieldRule → List Value → Except DecodeError (Members Value × List Value)
  | [], rest => .ok (seen, rest)
  | r :: rules, [] =>
    if r.required then .error (.badLength count expected)
    else fromItems expected (count + 1) seen rules []
  | r :: rules, v :: vs => do
    r.check v
    fromItems expected (count + 1) (seen ++ [(r.name, v)]) rules vs

/-- How a message names a record and the number of its fields. -/
def expectation (name : String) (rules : List FieldRule) : String :=
  name ++ " with " ++ toString rules.length ++
    (if rules.length = 1 then " element" else " elements")

/-- The values of the fields of a record. -/
def fields (name : String) (rules : List FieldRule) : Decoder (Members Value)
  | .object ms => fromMembers rules [] ms
  | .array xs => do
    let (seen, rest) ← fromItems (expectation name rules) 0 [] rules xs
    if rest.isEmpty then return seen
    else throw (.badLength xs.length "fewer elements in array")
  | v => .error (.wrongKind v name)

/-- The value of a field among the fields of a record. -/
def get {α : Type} (seen : Members Value) (f : RecordField α) : Except DecodeError α :=
  match seen.get? f.name with
  | some v => f.read v
  | none =>
    match f.absent with
    | some a => .ok a
    | none => .error (.missingField f.name)

theorem fields_object (name : String) (rules : List FieldRule) (ms : List (String × Value)) :
    fields name rules (.object ms) = fromMembers rules [] ms := rfl

end Record

end Workflow.Json
