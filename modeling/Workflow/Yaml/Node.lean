/-!
# Trees of a YAML document

A document is a tree of scalars, sequences and mappings. A node may be given an anchor, and an
alias stands for the anchored node of its number. `Node.anchored?` finds that node: when several
nodes carry one number, it is the last of them in the order of the text.
-/

namespace Workflow.Yaml

inductive Node where
  | scalar (tag : Option String) (plain : Bool) (text : String)
  | sequence (tag : Option String) (items : List Node)
  | mapping (tag : Option String) (entries : List (Node × Node))
  | anchor (id : Nat) (node : Node)
  | reference (id : Nat)

namespace Node

/-- The node that stands where nothing is written. -/
def empty : Node := scalar none true ""

mutual

/-- The anchored nodes of a tree, an outer one before those inside it. -/
def anchors : Node → List (Nat × Node)
  | scalar .. | reference _ => []
  | sequence _ items => anchorsOfItems items
  | mapping _ entries => anchorsOfEntries entries
  | anchor id node => (id, node) :: anchors node

def anchorsOfItems : List Node → List (Nat × Node)
  | [] => []
  | n :: ns => anchors n ++ anchorsOfItems ns

def anchorsOfEntries : List (Node × Node) → List (Nat × Node)
  | [] => []
  | (k, v) :: es => anchors k ++ anchors v ++ anchorsOfEntries es

end

mutual

/-- The number of marks that a tree is made of: one for a scalar or an alias, two for a collection
besides its content. -/
def size : Node → Nat
  | scalar .. | reference _ => 1
  | sequence _ items => 2 + sizeOfItems items
  | mapping _ entries => 2 + sizeOfEntries entries
  | anchor _ node => size node

def sizeOfItems : List Node → Nat
  | [] => 0
  | n :: ns => size n + sizeOfItems ns

def sizeOfEntries : List (Node × Node) → Nat
  | [] => 0
  | (k, v) :: es => size k + size v + sizeOfEntries es

end

/-- The node an alias stands for. -/
def anchored? (root : Node) (id : Nat) : Option Node :=
  (root.anchors.reverse.find? fun a ↦ a.1 == id).map (·.2)

def bare : Node → Node
  | anchor _ node => bare node
  | n => n

end Node

end Workflow.Yaml
