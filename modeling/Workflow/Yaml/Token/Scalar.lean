import Workflow.Text.Digits
import Workflow.Yaml.Source

/-!
# Scalars of a YAML stream

Readers for the four ways to write a scalar: plain, between quotes, and as a block that keeps its
lines or folds them. Each goes through the stream one character at a time with a small state and
returns the text of the scalar and what is left of the stream.
-/

namespace Workflow.Yaml.Scalar

/-! ## White space inside flow scalars -/

/-- The white space met since the last other character of a plain or quoted scalar. -/
inductive Gap where
  /-- Blanks on one line. -/
  | blanks (text : List Char)
  /-- At least one break: the first, unless it was escaped, and those after it. -/
  | broken (first : Option Char) (more : List Char)

namespace Gap

def empty : Gap := blanks []

/-- A gap with one more blank or break. Blanks around a break are dropped. -/
def add (c : Char) : Gap → Gap
  | blanks text => if isBreak c then broken (some c) [] else blanks (text ++ [c])
  | broken first more => if isBreak c then broken first (more ++ [c]) else broken first more

/-- Whether there is a break in it. -/
def isBroken : Gap → Bool
  | blanks _ => false
  | broken _ _ => true

/-- What a gap stands for: a single line feed becomes a space, of several the first is dropped. -/
def folded : Gap → List Char
  | blanks text => text
  | broken none more => more
  | broken (some first) more =>
    if first == '\n' then (if more.isEmpty then [' '] else more) else first :: more

end Gap

/-! ## Quoted scalars -/

/-- The number of hexadecimal digits of a numeric escape. -/
def escapeDigits? : Char → Option Nat
  | 'x' => some 2
  | 'u' => some 4
  | 'U' => some 8
  | _ => none

/-- The character of an escape of one letter. -/
def escaped? : Char → Option Char
  | '0' => some '\x00'
  | 'a' => some '\x07'
  | 'b' => some '\x08'
  | 't' => some '\t'
  | '\t' => some '\t'
  | 'n' => some '\n'
  | 'v' => some '\x0b'
  | 'f' => some '\x0c'
  | 'r' => some '\r'
  | 'e' => some '\x1b'
  | ' ' => some ' '
  | '"' => some '"'
  | '/' => some '/'
  | '\\' => some '\\'
  | 'N' => some '\u0085'
  | '_' => some '\u00A0'
  | 'L' => some '\u2028'
  | 'P' => some '\u2029'
  | _ => none

/-- Where the reader of a quoted scalar stands. -/
inductive QuotedState where
  | body (gap : Gap)
  | escape
  | hex (digits : Nat) (value : Nat)

/-- Puts characters in front of a reader's text. -/
def prepend (cs : List Char) (r : Option (List Char × Source)) : Option (List Char × Source) :=
  r.map fun (text, rest) ↦ (cs ++ text, rest)

/-- Reads a scalar between single quotes after the first of them; two quotes stand for one. -/
def singleQuoted (gap : Gap) : Source → Option (List Char × Source)
  | [] => none
  | ⟨'\'', l, c⟩ :: ⟨'\'', l', c'⟩ :: s =>
    if Source.atDocumentEdge (⟨'\'', l, c⟩ :: ⟨'\'', l', c'⟩ :: s) then none
    else prepend (gap.folded ++ ['\'']) (singleQuoted .empty s)
  | c :: s =>
    if isBlank c.char || isBreak c.char then singleQuoted (gap.add c.char) s
    else if Source.atDocumentEdge (c :: s) then none
    else if c.char == '\'' then some (gap.folded, s)
    else prepend (gap.folded ++ [c.char]) (singleQuoted .empty s)

/-- Reads a scalar between double quotes after the first of them. -/
def doubleQuoted : QuotedState → Source → Option (List Char × Source)
  | _, [] => none
  | .body gap, c :: s =>
    if isBlank c.char || isBreak c.char then doubleQuoted (.body (gap.add c.char)) s
    else if Source.atDocumentEdge (c :: s) then none
    else if c.char == '"' then some (gap.folded, s)
    else if c.char == '\\' then prepend gap.folded (doubleQuoted .escape s)
    else prepend (gap.folded ++ [c.char]) (doubleQuoted (.body .empty) s)
  | .escape, c :: s =>
    if isBreak c.char then doubleQuoted (.body (.broken none [])) s
    else
      match escapeDigits? c.char with
      | some n => doubleQuoted (.hex n 0) s
      | none => do
        let e ← escaped? c.char
        prepend [e] (doubleQuoted (.body .empty) s)
  | .hex digits value, c :: s => do
    let value := 16 * value + (← Text.hexValue? c.char)
    if digits ≤ 1 then
      if value.isValidChar then prepend [Char.ofNat value] (doubleQuoted (.body .empty) s) else none
    else doubleQuoted (.hex (digits - 1) value) s

/-! ## Plain scalars -/

/-- The characters that delimit flow collections. -/
def isFlowIndicator (c : Char) : Bool :=
  c == ',' || c == '[' || c == ']' || c == '\x7b' || c == '\x7d'

/-- What a reader of plain scalars returns: the text, whether a break follows it, and the rest. -/
structure PlainResult where
  text : List Char
  broken : Bool
  rest : Source

/-- Reads a plain scalar. It ends before a comment, a document marker and a colon with a gap after
it; in a flow collection also before an indicator, outside of one also before a line that is
indented less than `indent`. -/
def plain (flow : Bool) (indent : Nat) (gap : Gap) : Source → Option PlainResult
  | [] => some ⟨[], gap.isBroken, []⟩
  | c :: s =>
    let stop : Option PlainResult := some ⟨[], gap.isBroken, c :: s⟩
    let adjacent :=
      match gap with
      | .blanks [] => true
      | _ => false
    if isBlank c.char || isBreak c.char then
      if gap.isBroken && c.char == '\t' && c.column < indent then none
      else plain flow indent (gap.add c.char) s
    else if !adjacent && !flow && c.column < indent then stop
    else if !adjacent && (Source.atDocumentEdge (c :: s) || c.char == '#') then stop
    else if flow && c.char == ':' &&
        Source.startsWith s (fun d ↦ isFlowIndicator d || d == '?') then
      none
    else if c.char == ':' && Source.atGap s || flow && isFlowIndicator c.char then stop
    else
      (plain flow indent .empty s).map fun r ↦ { r with text := gap.folded ++ c.char :: r.text }

/-! ## Block scalars -/

/-- What becomes of the breaks at the end of a block scalar. -/
inductive Chomping where
  | strip
  | clip
  | keep
  deriving DecidableEq

/-- The first line of a block scalar: chomping and the indentation it asks for. -/
structure BlockHeader where
  chomping : Chomping := .clip
  indentation : Option Nat := none

/-- Reads an indentation of one digit, which is not zero. -/
def indentation? : Source → Option (Option Nat × Source)
  | [] => some (none, [])
  | c :: s =>
    if c.char.isDigit then
      if c.char == '0' then none else some (some (c.char.toNat - 48), s)
    else some (none, c :: s)

/-- Reads the sign that asks for a chomping. -/
def chomping? : Source → Option Chomping × Source
  | ⟨'+', _, _⟩ :: s => (some .keep, s)
  | ⟨'-', _, _⟩ :: s => (some .strip, s)
  | s => (none, s)

/-- Reads the first line of a block scalar; sign and digit come in either order. -/
def blockHeader? (s : Source) : Option (BlockHeader × Source) := do
  let (chomping, s) := chomping? s
  let (indentation, s) ← indentation? s
  let (chomping, s) := if chomping.isSome then (chomping, s) else chomping? s
  return (⟨chomping.getD .clip, indentation⟩, ← s.dropLineEnd?)

/-- Reads the breaks before the first line of a block scalar and finds the indentation, which is
that of the deepest line so far when it is not given. -/
def blockStart? (least : Nat) (given : Option Nat) (deepest : Nat) (breaks : List Char) :
    Source → Option (Nat × List Char × Source)
  | [] => some (given.getD (max deepest (max least 1)), breaks, [])
  | c :: s =>
    let outside := given.all (c.column < ·)
    if outside && c.char == ' ' then blockStart? least given deepest breaks s
    else
      let deepest := max deepest c.column
      if outside && c.char == '\t' then none
      else if isBreak c.char then blockStart? least given deepest (breaks ++ [c.char]) s
      else some (given.getD (max deepest (max least 1)), breaks, c :: s)

/-- Where the reader of a block scalar stands. -/
inductive BlockState where
  /-- Before a line: the break of the line before, whether that line began with a blank, and the
  empty lines since. -/
  | between (lead : List Char) (indented : Bool) (breaks : List Char)
  /-- In a line that may have begun with a blank. -/
  | line (indented : Bool)

/-- The breaks before a line, folded where both neighbours are text at the indentation. -/
def joint (literal : Bool) (lead : List Char) (before after : Bool) (breaks : List Char) :
    List Char :=
  if !literal && lead == ['\n'] && !before && !after then
    if breaks.isEmpty then [' '] else breaks
  else lead ++ breaks

/-- The breaks at the end of a block scalar. -/
def Chomping.tail (lead breaks : List Char) : Chomping → List Char
  | strip => []
  | clip => lead
  | keep => lead ++ breaks

/-- Reads the lines of a block scalar. -/
def blockLines (literal : Bool) (chomping : Chomping) (indent : Nat) :
    BlockState → Source → Option (List Char × Source)
  | .between lead _ breaks, [] => some (chomping.tail lead breaks, [])
  | .line _, [] => some ([], [])
  | .between lead before breaks, c :: s =>
    if c.column < indent && c.char == ' ' then
      blockLines literal chomping indent (.between lead before breaks) s
    else if c.column < indent && c.char == '\t' then none
    else if isBreak c.char then
      blockLines literal chomping indent (.between lead before (breaks ++ [c.char])) s
    else if c.column == indent then
      let after := isBlank c.char
      prepend (joint literal lead before after breaks ++ [c.char])
        (blockLines literal chomping indent (.line after) s)
    else some (chomping.tail lead breaks, c :: s)
  | .line indented, c :: s =>
    if isBreak c.char then blockLines literal chomping indent (.between [c.char] indented []) s
    else prepend [c.char] (blockLines literal chomping indent (.line indented) s)

/-- Reads a block scalar after its indicator, inside a collection whose content starts at column
`least`. -/
def block (literal : Bool) (least : Nat) (s : Source) : Option (List Char × Source) := do
  let (header, s) ← blockHeader? s
  let given := header.indentation.map (least - 1 + ·)
  let (indent, breaks, s) ← blockStart? least given 0 [] s
  blockLines literal header.chomping indent (.between [] false breaks) s

end Workflow.Yaml.Scalar
