import Workflow.Json.Members
import Workflow.Toml.Value

/-!
# Tables

The tables of a document while it is read. A table may be named by a header, by the headers of
tables inside it, or by the keys of its entries, and a table that was completed in one way cannot be
added to in another: that is what `Origin` keeps track of.
-/

namespace Workflow.Toml

open Json (Members)

/-- What a table of a document comes from. -/
inductive Origin where
  /-- A header of its own. -/
  | header
  /-- Only headers of tables inside it. -/
  | implied
  /-- Keys with several parts. -/
  | dotted
  deriving DecidableEq, Repr

/-- What a name of a document stands for. -/
inductive Node where
  | value (v : Value)
  | table (origin : Origin) (members : List (String × Node))
  | tables (items : List (List (String × Node)))
  deriving Inhabited

namespace Table

/-- A key with the value it is given. -/
structure Entry where
  key : List String
  value : Value

/-- Changes the last of some tables, if there is one. -/
def onLast (f : Members Node → Option (Members Node)) :
    List (Members Node) → Option (List (Members Node))
  | [] => none
  | [ms] => (f ms).map fun ms ↦ [ms]
  | ms :: more => (onLast f more).map (ms :: ·)

/-- Gives a value to a key. The tables that its parts lead through must not have a header, and the
innermost of them must come from keys alone. -/
def add (v : Value) : List String → Members Node → Option (Members Node)
  | [], _ => none
  | [name], ms => if ms.contains name then none else some (ms.insert name (.value v))
  | part :: name :: path, ms =>
    match ms.get? part with
    | none => (add v (name :: path) []).map fun inner ↦ ms.insert part (.table .dotted inner)
    | some (.table .dotted inner) =>
      (add v (name :: path) inner).map fun inner ↦ ms.insert part (.table .dotted inner)
    | some (.table .implied inner) =>
      if path.isEmpty then none
      else (add v (name :: path) inner).map fun inner ↦ ms.insert part (.table .implied inner)
    | some (.tables items) =>
      if path.isEmpty then none
      else (onLast (add v (name :: path)) items).map fun items ↦ ms.insert part (.tables items)
    | some _ => none

/-- Gives a key of an entry its value. -/
def addEntry (ms : Members Node) (e : Entry) : Option (Members Node) := add e.value e.key ms

/-- Changes what a header stands for. Of several tables of one name it leads through the last. -/
def under (f : Option Node → Option Node) : List String → Members Node → Option (Members Node)
  | [], _ => none
  | [name], ms => (f (ms.get? name)).map fun node ↦ ms.insert name node
  | part :: name :: path, ms =>
    match ms.get? part with
    | none => (under f (name :: path) []).map fun inner ↦ ms.insert part (.table .implied inner)
    | some (.table origin inner) =>
      (under f (name :: path) inner).map fun inner ↦ ms.insert part (.table origin inner)
    | some (.tables items) =>
      (onLast (under f (name :: path)) items).map fun items ↦ ms.insert part (.tables items)
    | some (.value _) => none

/-- Opens a table. It must not have had a header before, nor come from keys. -/
def openTable : Option Node → Option Node
  | none => some (.table .header [])
  | some (.table .implied ms) => some (.table .header ms)
  | some _ => none

/-- Opens one more of the tables of a name. -/
def openNext : Option Node → Option Node
  | none => some (.tables [[]])
  | some (.tables items) => some (.tables (items ++ [[]]))
  | some _ => none

/-- Adds an entry to an open table. -/
def addTo (e : Entry) : Option Node → Option Node
  | some (.table origin ms) => (addEntry ms e).map (.table origin)
  | some (.tables items) => (onLast (fun ms ↦ addEntry ms e) items).map .tables
  | _ => none

mutual

def toValue : Node → Value
  | .value v => v
  | .table _ ms => .table (toValues ms)
  | .tables items => .array (toItems items)

def toValues : List (String × Node) → List (String × Value)
  | [] => []
  | (name, node) :: ms => (name, toValue node) :: toValues ms

def toItems : List (List (String × Node)) → List Value
  | [] => []
  | ms :: items => .table (toValues ms) :: toItems items

end

end Table

end Workflow.Toml
