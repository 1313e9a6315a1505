import Workflow.Toml.Reader

/-!
# TOML documents

A document is a list of lines: entries, headers of tables, and headers that open one more of several
tables of a name. `parse?` reads the lines and then goes through them, where an entry belongs to the
table of the last header.
-/

namespace Workflow.Toml

open Json (Members)

/-- A line that says something. -/
inductive Line where
  | entry (e : Table.Entry)
  | header (path : List String)
  | nextHeader (path : List String)

namespace Line

/-- One line and the rest of the text. -/
def read? (s : List Char) : Option (Line × List Char) := do
  match s with
  | '[' :: '[' :: r =>
    match ← Reader.key? r with
    | (path, ']' :: ']' :: r) => return (nextHeader path, ← Reader.lineEnd? r)
    | _ => none
  | '[' :: r =>
    match ← Reader.key? r with
    | (path, ']' :: r) => return (header path, ← Reader.lineEnd? r)
    | _ => none
  | s =>
    match ← Reader.key? s with
    | (key, '=' :: r) =>
      let (v, r) ← Reader.value? (2 * r.length + 2) (Reader.nestingLimit - 1) (Reader.skipBlanks r)
      return (entry ⟨key, v⟩, ← Reader.lineEnd? r)
    | _ => none

/-- The lines of a text. The fuel is any bound on their number, blank ones included. -/
def readAll? : Nat → List Char → Option (List Line)
  | 0, _ => none
  | fuel + 1, s =>
    match Reader.skipBlanks s with
    | [] => some []
    | '#' :: r => do
      readAll? fuel (← Reader.lineEnd? ('#' :: r))
    | c :: r =>
      match Reader.newLine? (c :: r) with
      | some r => readAll? fuel r
      | none => do
        let (line, r) ← read? (c :: r)
        return line :: (← readAll? fuel r)

/-- Goes through a line with the names so far and the table that is open; none is at first. -/
def step : Members Node × List String → Line → Option (Members Node × List String)
  | (ms, []), entry e => (Table.addEntry ms e).map fun ms ↦ (ms, [])
  | (ms, path), entry e => (Table.under (Table.addTo e) path ms).map fun ms ↦ (ms, path)
  | (ms, _), header path => (Table.under Table.openTable path ms).map fun ms ↦ (ms, path)
  | (ms, _), nextHeader path => (Table.under Table.openNext path ms).map fun ms ↦ (ms, path)

end Line

/-- The entries of a document. A mark of the byte order may stand in front. -/
def parse? (text : String) : Option (Members Value) := do
  let s :=
    match text.toList with
    | '\uFEFF' :: r => r
    | s => s
  let lines ← Line.readAll? (s.length + 1) s
  let (ms, _) ← lines.foldlM Line.step ([], [])
  return Table.toValues ms

end Workflow.Toml
