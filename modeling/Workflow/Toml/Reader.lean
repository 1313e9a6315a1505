import Workflow.Json.Reader
import Workflow.Toml.Scalar
import Workflow.Toml.Table

/-!
# The parts of a document

Blanks, strings, keys and values, each read from the beginning of a text. Every function returns
what it read and the rest of the text.
-/

namespace Workflow.Toml.Reader

/-! ## Blanks -/

/-- Whether a character may stand in a comment. -/
def isCommentChar (c : Char) : Bool :=
  let n := c.toNat
  n == 9 || (32 ≤ n && n ≤ 126) || 128 ≤ n

/-- Drops the blanks inside a line. -/
def skipBlanks (s : List Char) : List Char := s.dropWhile fun c ↦ c == ' ' || c == '\t'

/-- A text after a line break. -/
def newLine? : List Char → Option (List Char)
  | '\n' :: s | '\r' :: '\n' :: s => some s
  | _ => none

/-- Drops a comment up to the end of its line. -/
def skipComment : List Char → List Char
  | '#' :: s => s.dropWhile isCommentChar
  | s => s

/-- A text after the end of a line, which may be the end of the text. -/
def lineEnd? (s : List Char) : Option (List Char) :=
  match skipComment (skipBlanks s) with
  | [] => some []
  | s => newLine? s

/-- Drops blanks, line breaks and comments; the flag says whether a comment is open. -/
def skipLines? : Bool → List Char → Option (List Char)
  | false, ' ' :: s | false, '\t' :: s | false, '\n' :: s => skipLines? false s
  | false, '\r' :: '\n' :: s => skipLines? false s
  | false, '#' :: s => skipLines? true s
  | false, s => some s
  | true, '\n' :: s | true, '\r' :: '\n' :: s => skipLines? false s
  | true, c :: s => if isCommentChar c then skipLines? true s else none
  | true, [] => none

/-! ## Strings -/

/-- The character of a hexadecimal number of a given width. -/
def unicode? (width : Nat) (s : List Char) : Option (Char × List Char) := do
  if (s.take width).length != width then none
  let n ← Text.digits? 16 (s.take width)
  if n.isValidChar then some (Char.ofNat n, s.drop width) else none

/-- The character of an escape, after its backslash. -/
def escape? : List Char → Option (Char × List Char)
  | '"' :: s => some ('"', s)
  | '\\' :: s => some ('\\', s)
  | 'b' :: s => some (Char.ofNat 8, s)
  | 'f' :: s => some (Char.ofNat 12, s)
  | 'n' :: s => some ('\n', s)
  | 'r' :: s => some ('\r', s)
  | 't' :: s => some ('\t', s)
  | 'u' :: s => unicode? 4 s
  | 'U' :: s => unicode? 8 s
  | _ => none

/-- A string on one line after its opening quote. The fuel is any bound on its characters. -/
def basic? : Nat → List Char → Option (List Char × List Char)
  | 0, _ => none
  | _ + 1, '"' :: s => some ([], s)
  | fuel + 1, '\\' :: s => do
    let (c, s) ← escape? s
    let (cs, s) ← basic? fuel s
    return (c :: cs, s)
  | fuel + 1, c :: s =>
    if isCommentChar c then (basic? fuel s).map fun (cs, r) ↦ (c :: cs, r) else none
  | _ + 1, [] => none

/-- A string on one line without escapes, after its opening quote. -/
def literal? : List Char → Option (List Char × List Char)
  | [] => none
  | c :: s =>
    if c = '\'' then some ([], s)
    else if isCommentChar c then (literal? s).map fun (cs, r) ↦ (c :: cs, r)
    else none

/-- Cuts a text after the three quotes that close a string of many lines, if it begins with at least
three. One or two quotes more belong to the string. -/
def closing? (quote : Char) (s : List Char) : Option (List Char × List Char) :=
  let count := (s.takeWhile (· == quote)).length
  if count < 3 then none
  else some (List.replicate (min count 5 - 3) quote, s.drop (min count 5))

/-- Drops blanks and line breaks. -/
def skipBlankLines : List Char → List Char
  | ' ' :: s | '\t' :: s | '\n' :: s => skipBlankLines s
  | '\r' :: '\n' :: s => skipBlankLines s
  | s => s

/-- Drops the rest of a line that has only blanks, and all blank lines after it. -/
def joinedLines? (s : List Char) : Option (List Char) :=
  (newLine? (skipBlanks s)).map skipBlankLines

/-- A string of many lines after its opening quotes. A backslash at the end of a line joins it to
the next text. The fuel is any bound on its characters. -/
def basicLines? : Nat → List Char → Option (List Char × List Char)
  | 0, _ => none
  | fuel + 1, s =>
    match closing? '"' s with
    | some end_ => some end_
    | none =>
      match s with
      | [] => none
      | '\\' :: r =>
        match joinedLines? r with
        | some r => basicLines? fuel r
        | none => do
          let (c, r) ← escape? r
          let (cs, r) ← basicLines? fuel r
          return (c :: cs, r)
      | c :: r =>
        match newLine? s with
        | some r => (basicLines? fuel r).map fun (cs, r) ↦ ('\n' :: cs, r)
        | none =>
          if isCommentChar c then (basicLines? fuel r).map fun (cs, r) ↦ (c :: cs, r) else none

/-- A string of many lines without escapes, after its opening quotes. -/
def literalLines? : Nat → List Char → Option (List Char × List Char)
  | 0, _ => none
  | fuel + 1, s =>
    match closing? '\'' s with
    | some end_ => some end_
    | none =>
      match s with
      | [] => none
      | c :: r =>
        match newLine? s with
        | some r => (literalLines? fuel r).map fun (cs, r) ↦ ('\n' :: cs, r)
        | none =>
          if isCommentChar c then (literalLines? fuel r).map fun (cs, r) ↦ (c :: cs, r) else none

/-- A text without the line break it begins with, if it does. -/
def dropNewLine (s : List Char) : List Char := (newLine? s).getD s

/-- A string of any of the four kinds. -/
def string? (s : List Char) : Option (String × List Char) :=
  let read : Option (List Char × List Char) :=
    match s with
    | '"' :: '"' :: '"' :: r => basicLines? (r.length + 1) (dropNewLine r)
    | '"' :: r => basic? (r.length + 1) r
    | '\'' :: '\'' :: '\'' :: r => literalLines? (r.length + 1) (dropNewLine r)
    | '\'' :: r => literal? r
    | _ => none
  read.map fun (cs, r) ↦ (String.ofList cs, r)

/-! ## Keys -/

/-- Arrays and tables nest, and keys have parts, up to one less than this. -/
def nestingLimit : Nat := 80

/-- Whether a character may stand in a key without quotes. -/
def isKeyChar (c : Char) : Bool := c.isAlphanum || c == '_' || c == '-'

/-- One part of a key. -/
def keyPart? (s : List Char) : Option (String × List Char) :=
  match s with
  | '"' :: r => (basic? (r.length + 1) r).map fun (cs, r) ↦ (String.ofList cs, r)
  | '\'' :: r => (literal? r).map fun (cs, r) ↦ (String.ofList cs, r)
  | s =>
    let part := s.takeWhile isKeyChar
    if part.isEmpty then none else some (String.ofList part, s.dropWhile isKeyChar)

/-- The parts of a key, with blanks around each of them. The fuel is any bound on their number. -/
def keyParts? : Nat → List Char → Option (List String × List Char)
  | 0, _ => none
  | fuel + 1, s => do
    let (part, r) ← keyPart? (skipBlanks s)
    match skipBlanks r with
    | '.' :: r =>
      let (parts, r) ← keyParts? fuel r
      return (part :: parts, r)
    | r => return ([part], r)

def key? (s : List Char) : Option (List String × List Char) :=
  (keyParts? (s.length + 1) s).filter fun (parts, _) ↦ parts.length < nestingLimit

/-! ## Values -/

/-- Whether a character ends a scalar without quotes. -/
def endsRun (c : Char) : Bool :=
  c == ' ' || c == '\t' || c == '\n' || c == '\r' || c == ',' || c == ']' || c == '\x7d' || c == '#'

/-- A scalar without quotes. A date and a time may have a blank between them. -/
def run? (s : List Char) : Option (Value × List Char) :=
  let run := s.takeWhile fun c ↦ !endsRun c
  let rest := s.dropWhile fun c ↦ !endsRun c
  let alone : Option (Value × List Char) := (Scalar.ofRun? run).map fun v ↦ (v, rest)
  match rest with
  | ' ' :: c :: r =>
    if Scalar.isDate run && c.isDigit then
      let time := (c :: r).takeWhile fun c ↦ !endsRun c
      if Scalar.isTime time then
        some (.moment (String.ofList (run ++ ' ' :: time)), (c :: r).dropWhile fun c ↦ !endsRun c)
      else none
    else alone
  | _ => alone

mutual

/-- A value. The fuel bounds the number of tokens, the depth the nesting. -/
def value? : Nat → Nat → List Char → Option (Value × List Char)
  | 0, _, _ => none
  | fuel + 1, depth, s =>
    match s, depth with
    | '"' :: _, _ | '\'' :: _, _ => (string? s).map fun (t, r) ↦ (.string t, r)
    | '[' :: _, 0 | '\x7b' :: _, 0 => none
    | '[' :: r, depth + 1 => (items? fuel depth r).map fun (xs, r) ↦ (.array xs, r)
    | '\x7b' :: r, depth + 1 => do
      let (entries, r) ←
        match skipBlanks r with
        | '\x7d' :: r => some ([], r)
        | _ => entries? fuel depth r
      return (.table (Table.toValues (← entries.foldlM Table.addEntry [])), r)
    | s, _ => run? s

/-- The items of an array up to and with its closing bracket. A comma may follow the last one. -/
def items? : Nat → Nat → List Char → Option (List Value × List Char)
  | 0, _, _ => none
  | fuel + 1, depth, s => do
    match ← skipLines? false s with
    | ']' :: r => return ([], r)
    | r =>
      let (x, r) ← value? fuel depth r
      match ← skipLines? false r with
      | ']' :: r => return ([x], r)
      | ',' :: r =>
        let (xs, r) ← items? fuel depth r
        return (x :: xs, r)
      | _ => none

/-- The entries of a table on one line up to and with its closing brace. -/
def entries? : Nat → Nat → List Char → Option (List Table.Entry × List Char)
  | 0, _, _ => none
  | fuel + 1, depth, s => do
    let (key, r) ← key? s
    match r with
    | '=' :: r =>
      let (v, r) ← value? fuel depth (skipBlanks r)
      match skipBlanks r with
      | '\x7d' :: r => return ([⟨key, v⟩], r)
      | ',' :: r =>
        let (es, r) ← entries? fuel depth r
        return (⟨key, v⟩ :: es, r)
      | _ => none
    | _ => none

end

end Workflow.Toml.Reader
