import Workflow.Text.Split
import Workflow.Text.Width

/-!
# Tables

A table is drawn with lines around it, between its columns and under its first row. Each column is
as wide as its widest cell, with one space on either side; a cell with several lines makes its row
as high.
-/

namespace Workflow.Text.Table

def cellLines (cell : String) : List (List Char) := splitOn '\n' cell.toList

/-- The columns that a cell takes. -/
def cellWidth (cell : String) : Nat := ((cellLines cell).map width).foldl max 0

/-- The widths of the columns of some rows. -/
def columnWidths : List (List String) → List Nat
  | [] => []
  | row :: rows =>
    let first := row.map cellWidth
    let others := columnWidths rows
    let common := min first.length others.length
    List.zipWith max first others ++ first.drop common ++ others.drop common

/-- A line filled up with spaces to a width, and one on either side. -/
def padded (columns : Nat) (line : List Char) : List Char :=
  ' ' :: (line ++ List.replicate (columns - width line + 1) ' ')

/-- One line of a row. -/
def rowLine (widths : List Nat) (cells : List (List Char)) : String :=
  String.ofList ('│' :: (['┆'].intercalate (List.zipWith padded widths cells) ++ ['│']))

def row (widths : List Nat) (cells : List String) : List String :=
  let lines := cells.map cellLines
  let height := (lines.map List.length).foldl max 0
  (List.range height).map fun i ↦ rowLine widths (lines.map fun ls ↦ (ls[i]?).getD [])

/-- A line between rows or around them. -/
def rule (left fill cross right : Char) (widths : List Nat) : String :=
  String.ofList (left :: ([cross].intercalate (widths.map fun w ↦ List.replicate (w + 2) fill) ++
    [right]))

/-- The lines of a table with a first row of titles. -/
def lines (titles : List String) (rows : List (List String)) : List String :=
  let widths := columnWidths (titles :: rows)
  rule '┌' '─' '┬' '┐' widths :: row widths titles ++
    [rule '╞' '═' '╪' '╡' widths] ++ rows.flatMap (row widths) ++
    [rule '└' '─' '┴' '┘' widths]

end Workflow.Text.Table
