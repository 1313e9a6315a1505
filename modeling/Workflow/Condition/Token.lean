import Workflow.Text.Blank
import Workflow.Json.Reader

/-!
# Tokens of condition expressions

`Token.scan?` cuts an expression into tokens. Expressions are ASCII: a text with any other
character has no tokens. Numbers carry neither sign nor exponent, and the only escape in a string
is a backslash before the quote that the string stands in.
-/

namespace Workflow.Condition

/-- The infix operators, loosest group first. -/
inductive Operator where
  | and | or
  | equal | notEqual | greaterEqual | lessEqual | greater | less | isIn
  | plus | minus
  | times | floorDiv | divide
  | modulus | power
  deriving DecidableEq, Repr

/-- A token of an expression. -/
inductive Token where
  | name (text : String)
  | number (x : Float)
  | string (text : String)
  | bool (b : Bool)
  | null
  | op (o : Operator)
  | openParen | closeParen | openBracket | closeBracket | openBrace | closeBrace
  | comma | dot | question | colon | pipe
  deriving DecidableEq, Repr

namespace Token

/-- The letters, digits and underscores a name goes on with. -/
def isNameChar (c : Char) : Bool := c.isAlphanum || c == '_'

/-- The letters and underscores a name starts with. -/
def isNameStart (c : Char) : Bool := c.isAlpha || c == '_'

/-- The token of a word: one of four keywords or a name. -/
def ofWord (w : List Char) : Token :=
  match String.ofList w with
  | "true" => bool true
  | "false" => bool false
  | "null" => null
  | "in" => op .isIn
  | text => name text

/-- The characters of a string up to its closing quote, and the rest. -/
def stringBody? (quote : Char) : List Char → Option (List Char × List Char)
  | [] => none
  | '\\' :: c :: s =>
    if c = quote then (stringBody? quote s).map fun (cs, r) ↦ (c :: cs, r) else none
  | c :: s =>
    if c = '\\' then none
    else if c = quote then some ([], s)
    else (stringBody? quote s).map fun (cs, r) ↦ (c :: cs, r)

/-- The double written as whole digits and digits after a point. -/
def ofDigits (whole fraction : List Char) : Token :=
  let digits := (whole ++ fraction).foldl (fun acc c ↦ 10 * acc + Json.Reader.digitValue c) 0
  number (Float.ofScientific digits true fraction.length)

/-- The operator or bracket a text starts with, and the rest. -/
def symbol? : List Char → Option (Token × List Char)
  | '=' :: '=' :: s => some (op .equal, s)
  | '!' :: '=' :: s => some (op .notEqual, s)
  | '>' :: '=' :: s => some (op .greaterEqual, s)
  | '<' :: '=' :: s => some (op .lessEqual, s)
  | '>' :: s => some (op .greater, s)
  | '<' :: s => some (op .less, s)
  | '&' :: '&' :: s => some (op .and, s)
  | '|' :: '|' :: s => some (op .or, s)
  | '|' :: s => some (pipe, s)
  | '+' :: s => some (op .plus, s)
  | '-' :: s => some (op .minus, s)
  | '*' :: s => some (op .times, s)
  | '/' :: '/' :: s => some (op .floorDiv, s)
  | '/' :: s => some (op .divide, s)
  | '%' :: s => some (op .modulus, s)
  | '^' :: s => some (op .power, s)
  | '(' :: s => some (openParen, s)
  | ')' :: s => some (closeParen, s)
  | '[' :: s => some (openBracket, s)
  | ']' :: s => some (closeBracket, s)
  | '\x7b' :: s => some (openBrace, s)
  | '\x7d' :: s => some (closeBrace, s)
  | ',' :: s => some (comma, s)
  | '.' :: s => some (dot, s)
  | '?' :: s => some (question, s)
  | ':' :: s => some (colon, s)
  | _ => none

/-- The first token of a text that starts with no blank, and the rest. -/
def first? (c : Char) (s : List Char) : Option (Token × List Char) :=
  if isNameStart c then
    some (ofWord (c :: s.takeWhile isNameChar), s.dropWhile isNameChar)
  else if c.isDigit then
    let whole := c :: s.takeWhile Char.isDigit
    match s.dropWhile Char.isDigit with
    | '.' :: d :: r =>
      if d.isDigit then
        some (ofDigits whole (d :: r.takeWhile Char.isDigit), r.dropWhile Char.isDigit)
      else some (ofDigits whole [], '.' :: d :: r)
    | r => some (ofDigits whole [], r)
  else if c = '"' ∨ c = '\'' then
    (stringBody? c s).map fun (cs, r) ↦ (string (String.ofList cs), r)
  else if c = '.' then
    match s with
    | d :: r =>
      if d.isDigit then some (ofDigits [] (d :: r.takeWhile Char.isDigit), r.dropWhile Char.isDigit)
      else some (dot, s)
    | [] => some (dot, s)
  else symbol? (c :: s)

/-- The tokens of a text, each found within the fuel, which is any bound on their number and the
number of blanks. -/
def scanWithin? : Nat → List Char → Option (List Token)
  | _, [] => some []
  | 0, _ :: _ => none
  | fuel + 1, c :: s =>
    if Text.isBlank c then scanWithin? fuel s
    else do
      let (t, rest) ← first? c s
      return t :: (← scanWithin? fuel rest)

def scan? (source : String) : Option (List Token) :=
  let s := source.toList
  if s.all fun c ↦ c.toNat < 128 then scanWithin? s.length s else none

end Token

end Workflow.Condition
