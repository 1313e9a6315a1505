import Workflow.Json.Value
import Workflow.Text.Digits

/-!
# The text of JSON values

`Value.compact` writes a value without any space, `Value.pretty` one item to a line with two
spaces of indentation. Inside strings only the quote, the backslash and the control characters
below the space are escaped.
-/

namespace Workflow.Json

/-- A character as it stands inside a string. -/
def escapeChar (c : Char) : List Char :=
  if c = '"' then ['\\', '"']
  else if c = '\\' then ['\\', '\\']
  else if c = '\n' then ['\\', 'n']
  else if c = '\r' then ['\\', 'r']
  else if c = '\t' then ['\\', 't']
  else if c.toNat = 8 then ['\\', 'b']
  else if c.toNat = 12 then ['\\', 'f']
  else if c.toNat < 32 then
    '\\' :: 'u' :: Text.hexDigits 4 c.toNat
  else [c]

def quote (s : List Char) : List Char := '"' :: (s.flatMap escapeChar ++ ['"'])

namespace Value

mutual

/-- The text of a value without spaces. -/
def compactChars : Value → List Char
  | null => "null".toList
  | bool b => (if b then "true" else "false").toList
  | number n => n.text.toList
  | string s => quote s.toList
  | array xs => '[' :: compactItems xs
  | object ms => '\x7b' :: compactMembers ms

def compactItems : List Value → List Char
  | [] => [']']
  | [x] => x.compactChars ++ [']']
  | x :: y :: xs => x.compactChars ++ ',' :: compactItems (y :: xs)

def compactMembers : Members Value → List Char
  | [] => ['\x7d']
  | [(k, x)] => quote k.toList ++ ':' :: (x.compactChars ++ ['\x7d'])
  | (k, x) :: m :: ms =>
    quote k.toList ++ ':' :: (x.compactChars ++ ',' :: compactMembers (m :: ms))

end

/-- The text of a value without spaces. -/
def compact (v : Value) : String := String.ofList v.compactChars

/-- A line break followed by the indentation of a depth. -/
private def newLine (depth : Nat) : List Char := '\n' :: List.replicate (2 * depth) ' '

mutual

/-- The text of a value at a depth, one item to a line. -/
def prettyChars (depth : Nat) : Value → List Char
  | array [] => "[]".toList
  | array (x :: xs) =>
    '[' :: (newLine (depth + 1) ++ prettyItems (depth + 1) (x :: xs) ++ newLine depth ++ [']'])
  | object [] => ['\x7b', '\x7d']
  | object (m :: ms) =>
    '\x7b' :: (newLine (depth + 1) ++ prettyMembers (depth + 1) (m :: ms) ++ newLine depth ++
      ['\x7d'])
  | v => v.compactChars

def prettyItems (depth : Nat) : List Value → List Char
  | [] => []
  | [x] => x.prettyChars depth
  | x :: y :: xs => x.prettyChars depth ++ ',' :: (newLine depth ++ prettyItems depth (y :: xs))

def prettyMembers (depth : Nat) : Members Value → List Char
  | [] => []
  | [(k, x)] => quote k.toList ++ ':' :: ' ' :: x.prettyChars depth
  | (k, x) :: m :: ms =>
    quote k.toList ++ ':' :: ' ' ::
      (x.prettyChars depth ++ ',' :: (newLine depth ++ prettyMembers depth (m :: ms)))

end

/-- The text of a value, one item to a line. -/
def pretty (v : Value) : String := String.ofList (v.prettyChars 0)

/-- A value as it stands inside running text: a string raw, anything else without spaces. -/
def plainText : Value → String
  | string s => s
  | v => v.compact

end Value

end Workflow.Json
