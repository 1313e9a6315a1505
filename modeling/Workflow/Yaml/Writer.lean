import Workflow.Yaml.Schema
import Workflow.Yaml.Source

/-!
# Writing YAML

`Yaml.write` writes a value in block style: mappings are indented by two columns, sequences stand at
the column of the key they belong to, and empty collections are a pair of brackets. A string is
written plain where that reads back as the same string, in single quotes where it would be read as
another type or as an indicator, and with its lines kept when it has several; double quotes are left
for strings with characters that have to be escaped.
-/

namespace Workflow.Yaml.Writer

open Json (Value Members)

/-- A line break in a scalar. -/
def isLineBreak (c : Char) : Bool :=
  c == '\n' || c == '\r' || c == '\u0085' || c == '\u2028' || c == '\u2029'

/-- A character that can be written as it is. -/
def isPrintable (c : Char) : Bool :=
  let n := c.toNat
  n == 0x0A || (0x20 ≤ n && n ≤ 0x7E) || (0xA0 ≤ n && n ≤ 0xFFFD && n != 0xFEFF) || 0x10000 ≤ n

/-- Whether some character of one kind has one of another kind after it. -/
def hasPair (p q : Char → Bool) : List Char → Bool
  | a :: b :: s => p a && q b || hasPair p q (b :: s)
  | _ => false

private def isSpacing (c : Char) : Bool := isBlank c || isLineBreak c

/-- Whether a plain scalar of this text would be taken for an indicator or a comment. -/
def hasIndicator (s : List Char) : Bool :=
  let spacedAfter := s.tail.head?.all isSpacing
  s.take 3 == "---".toList || s.take 3 == "...".toList ||
    s.head?.any (fun c ↦ "#,[]\x7b\x7d&*!|>'\"%@`".toList.contains c ||
      (c == '?' || c == '-') && spacedAfter) ||
    hasPair (· == ':') isSpacing s || s.getLast? == some ':' || hasPair isSpacing (· == '#') s

/-- Whether a space stands before a line break. -/
def hasTrailingBlanks (s : List Char) : Bool := hasPair (· == ' ') isLineBreak s

/-- Whether a space stands after a line break. -/
def hasIndentedLine (s : List Char) : Bool := hasPair isLineBreak (· == ' ') s

/-- Whether every character can be written as it is. -/
def isClean (s : List Char) : Bool := s.all isPrintable

/-- Whether a text can be written plain. -/
def allowsPlain (s : List Char) : Bool :=
  isClean s && !s.any isLineBreak && s.head? != some ' ' && s.getLast? != some ' ' &&
    !hasIndicator s

/-- Whether a text can be written in single quotes. -/
def allowsSingle (s : List Char) : Bool := isClean s && !hasTrailingBlanks s && !hasIndentedLine s

/-- Whether a text can be written line by line. -/
def allowsLiteral (s : List Char) : Bool :=
  isClean s && !hasTrailingBlanks s && s.getLast? != some ' '

/-- Words that some readers take for a truth value. -/
def truthWords : List String :=
  ["y", "Y", "yes", "Yes", "YES", "n", "N", "no", "No", "NO", "true", "True", "TRUE", "false",
    "False", "FALSE", "on", "On", "ON", "off", "Off", "OFF"]

/-- Whether a plain scalar of this text would not be a string. -/
def isAmbiguous (text : String) : Bool :=
  truthWords.contains text || Schema.isPadded text.toList ||
    match Schema.plain? text with
    | some (.string _) => false
    | _ => true

/-! ## Scalars -/

/-- The blanks at the start of a line. -/
def pad (indent : Nat) : List Char := List.replicate indent ' '

/-- What stands between single quotes: a quote is written twice, and what follows a line break is
indented. -/
def singleBody (indent : Nat) : Bool → List Char → List Char
  | atStart, [] => if atStart then pad indent else []
  | atStart, c :: s =>
    if isLineBreak c then c :: singleBody indent true s
    else
      (if atStart then pad indent else []) ++ (if c == '\'' then ['\'', '\''] else [c]) ++
        singleBody indent false s

def single (indent : Nat) (s : List Char) : List Char :=
  '\'' :: singleBody indent false s ++ ['\'']

/-- An escape by the number of a character. -/
def numericEscape (n : Nat) : List Char :=
  let digits (width : Nat) := (Text.hexDigits width n).map Char.toUpper
  if n ≤ 0xFF then 'x' :: digits 2
  else if n ≤ 0xFFFF then 'u' :: digits 4
  else 'U' :: digits 8

/-- A character as it stands between double quotes. -/
def escapeChar (c : Char) : List Char :=
  if isPrintable c && !isLineBreak c && c != '"' && c != '\\' then [c]
  else
    '\\' ::
      match c.toNat with
      | 0x00 => ['0']
      | 0x07 => ['a']
      | 0x08 => ['b']
      | 0x09 => ['t']
      | 0x0A => ['n']
      | 0x0B => ['v']
      | 0x0C => ['f']
      | 0x0D => ['r']
      | 0x1B => ['e']
      | 0x22 => ['"']
      | 0x5C => ['\\']
      | 0x85 => ['N']
      | 0xA0 => ['_']
      | 0x2028 => ['L']
      | 0x2029 => ['P']
      | n => numericEscape n

def double (s : List Char) : List Char := '"' :: s.flatMap escapeChar ++ ['"']

/-- The lines of a text, the ones with characters indented. -/
def literalLines (indent : Nat) : Bool → List Char → List Char
  | _, [] => []
  | atStart, c :: s =>
    if isLineBreak c then c :: literalLines indent true s
    else (if atStart then pad indent else []) ++ c :: literalLines indent false s

/-- A text line by line under a header, which says how the first line is indented when that does
not show, and what becomes of the breaks at the end. -/
def literal (indent : Nat) (s : List Char) : List Char :=
  -- the reader takes the indentation from the first line, which has none of its own here
  let hint := if s.head?.any fun c ↦ c == ' ' || isLineBreak c then ['2'] else []
  let chomping :=
    match s.reverse with
    | a :: b :: _ => if !isLineBreak a then ['-'] else if isLineBreak b then ['+'] else []
    | [a] => if isLineBreak a then ['+'] else ['-']
    | [] => ['-']
  '|' :: hint ++ chomping ++ '\n' :: literalLines indent true s

/-- A string as a scalar whose further lines, if any, are indented. -/
def string (indent : Nat) (text : String) : List Char :=
  let s := text.toList
  let quoted := if allowsSingle s then single indent s else double s
  if truthWords.contains text then quoted
  else if s.contains '\n' then (if allowsLiteral s then literal indent s else double s)
  else if isAmbiguous text then quoted
  else if allowsPlain s then s
  else quoted

/-- Doubles have no plus sign in their exponent. -/
def floatFormat : Json.Number.FloatFormat := { Json.Number.floatFormat with plusSign := false }

/-- The longest key, in bytes, that stands on the line of its value. -/
def longestKey : Nat := 128

/-- Whether a key stands on the line of its value. -/
def isSimpleKey (key : String) : Bool :=
  !key.toList.any isLineBreak && key.utf8ByteSize ≤ longestKey

/-- A text with another one on the next line, at a column. A text that is written line by line may
have ended its last line itself. -/
def onNextLine (indent : Nat) (before after : List Char) : List Char :=
  before ++ (if before.getLast?.any isLineBreak then [] else ['\n']) ++ pad indent ++ after

/-- Parts on lines of their own at a column; the first part is on the line already begun. -/
def joinLines (indent : Nat) : List (List Char) → List Char
  | [] => []
  | [part] => part
  | part :: next :: parts => onNextLine indent part (joinLines indent (next :: parts))

/-! ## Values -/

mutual

/-- A value after an indicator on the same line, at the column of its content. -/
def inline (indent : Nat) : Value → List Char
  | .null => "null".toList
  | .bool b => (if b then "true" else "false").toList
  | .number (.int n) => Json.Number.intText n
  | .number (.float x) => Json.Number.floatText floatFormat x
  | .string s => string indent s
  | .array xs => if xs.isEmpty then ['[', ']'] else joinLines indent (items indent xs)
  | .object ms =>
    if ms.isEmpty then ['\x7b', '\x7d'] else joinLines indent (entries indent ms)

def items (indent : Nat) : List Value → List (List Char)
  | [] => []
  | x :: xs => ('-' :: ' ' :: inline (indent + 2) x) :: items indent xs

def entries (indent : Nat) : List (String × Value) → List (List Char)
  | [] => []
  | (k, v) :: ms =>
    (if isSimpleKey k then string indent k ++ ':' :: underKey indent v
      else
        onNextLine indent ('?' :: ' ' :: string (indent + 2) k)
          (':' :: ' ' :: inline (indent + 2) v)) :: entries indent ms

/-- A value after its key and colon. -/
def underKey (indent : Nat) : Value → List Char
  | .array (x :: xs) => '\n' :: pad indent ++ joinLines indent (items indent (x :: xs))
  | .object (m :: ms) =>
    '\n' :: pad (indent + 2) ++ joinLines (indent + 2) (entries (indent + 2) (m :: ms))
  | v => ' ' :: inline (indent + 2) v

end

end Workflow.Yaml.Writer

namespace Workflow.Yaml

def write (v : Json.Value) : String := String.ofList (Writer.onNextLine 0 (Writer.inline 0 v) [])

end Workflow.Yaml
