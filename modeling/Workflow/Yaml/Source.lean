/-!
# The characters of a YAML stream

A stream is read as a list of characters that carry their line and column, so that every reader of
the stream is a plain recursion on that list. The spellings of a line break that mean the same, a
line feed, a carriage return, both together, and the next-line character, are read as one line
feed; the line and the paragraph separator are breaks too and keep their own character.
-/

namespace Workflow.Yaml

/-- A character with its place in the stream. -/
structure Located where
  char : Char
  line : Nat
  column : Nat
  deriving DecidableEq, Repr

/-- What is left of a stream. -/
abbrev Source := List Located

/-- A space or a tab. -/
def isBlank (c : Char) : Bool := c == ' ' || c == '\t'

def isBreak (c : Char) : Bool := c == '\n' || c == '\u2028' || c == '\u2029'

/-- A character of a name: an ASCII letter or digit, `_` or `-`. -/
def isNameChar (c : Char) : Bool := c.isAlphanum || c == '_' || c == '-'

namespace Source

def peek (s : Source) : Option Char := s.head?.map Located.char

/-- Whether the stream goes on with one of some characters. -/
def startsWith (s : Source) (p : Char → Bool) : Bool := s.peek.any p

/-- Whether no more of a word follows: the stream ends or goes on with a blank or a break. -/
def atGap (s : Source) : Bool := s.peek.all fun c ↦ isBlank c || isBreak c

/-- Whether a line consists of a document marker, three times the given character, and perhaps more
after a gap. -/
def atMarker (mark : Char) : Source → Bool
  | a :: b :: c :: rest =>
    a.column == 0 && a.char == mark && b.char == mark && c.char == mark && Source.atGap rest
  | _ => false

/-- Whether a document starts or ends here. -/
def atDocumentEdge (s : Source) : Bool := s.atMarker '-' || s.atMarker '.'

def dropBlanks (s : Source) : Source := s.dropWhile fun c ↦ isBlank c.char

/-- Drops the rest of a line, up to its break. -/
def dropToBreak (s : Source) : Source := s.dropWhile fun c ↦ !isBreak c.char

/-- The rest of a line that may hold only a comment, and its break, dropped. -/
def dropLineEnd? (s : Source) : Option Source :=
  let s := s.dropBlanks
  let s := if s.startsWith (· == '#') then s.dropToBreak else s
  match s with
  | [] => some []
  | c :: rest => if isBreak c.char then some rest else none

/-! ## Reading a text -/

/-- The characters a stream may hold. -/
def isAllowed (c : Char) : Bool :=
  let n := c.toNat
  n == 0x09 || n == 0x0A || n == 0x0D || (0x20 ≤ n && n ≤ 0x7E) || n == 0x85 ||
    (0xA0 ≤ n && n ≤ 0xFFFD && n != 0xFEFF) || 0x10000 ≤ n

/-- Places characters from a given line and column on. -/
def locate (line column : Nat) : List Char → Source
  | [] => []
  | '\r' :: '\n' :: s => ⟨'\n', line, column⟩ :: locate (line + 1) 0 s
  | c :: s =>
    let c := if c == '\r' || c == '\u0085' then '\n' else c
    if isBreak c then ⟨c, line, column⟩ :: locate (line + 1) 0 s
    else ⟨c, line, column⟩ :: locate line (column + 1) s

/-- The stream of a text; a byte order mark at its start is no part of it. -/
def ofText? (text : String) : Option Source :=
  let chars :=
    match text.toList with
    | '\uFEFF' :: s => s
    | s => s
  if chars.all isAllowed then some (locate 0 0 chars) else none

end Source

end Workflow.Yaml
