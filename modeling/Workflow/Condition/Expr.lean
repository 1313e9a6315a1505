import Workflow.Condition.Token

/-!
# Condition expressions

The abstract syntax, and the reader of it. Binary operators associate to the left in five groups;
the conditional comes next and takes transformed operands only on its right; transforms, then
accesses, bind tighter.
-/

namespace Workflow.Condition

inductive Expr where
  | number (x : Float)
  | string (s : String)
  | bool (b : Bool)
  | null
  | name (text : String)
  | array (items : List Expr)
  | object (members : List (String × Expr))
  | binary (o : Operator) (left right : Expr)
  | conditional (test yes no : Expr)
  | transform (subject : Expr) (function : String) (arguments : List Expr)
  | member (subject : Expr) (field : String)
  | index (subject position : Expr)
  | filter (subject : Expr) (field : String) (o : Operator) (right : Expr)
  deriving Inhabited, Repr

/-- How tightly an operator binds, from 1 to 5. -/
def Operator.level : Operator → Nat
  | and | or => 1
  | equal | notEqual | greaterEqual | lessEqual | greater | less | isIn => 2
  | plus | minus => 3
  | times | floorDiv | divide => 4
  | modulus | power => 5

namespace Expr

mutual

/-- An expression whose operators bind at least as tightly as a level. The fuel bounds the depth of
the calls. -/
def binary? : Nat → Nat → List Token → Option (Expr × List Token)
  | 0, _, _ => none
  | fuel + 1, level, ts =>
    if level ≤ 5 then do
      let (left, ts) ← binary? fuel (level + 1) ts
      binaryRest? fuel level left ts
    else do
      let (test, ts) ← transformed? fuel ts
      conditionalRest? fuel test ts

/-- The operators of a level after their first operand. -/
def binaryRest? : Nat → Nat → Expr → List Token → Option (Expr × List Token)
  | 0, _, _, _ => none
  | fuel + 1, level, left, .op o :: ts =>
    if o.level = level then do
      let (right, ts) ← binary? fuel (level + 1) ts
      binaryRest? fuel level (.binary o left right) ts
    else some (left, .op o :: ts)
  | _ + 1, _, left, ts => some (left, ts)

/-- The branches of conditionals after their first test. -/
def conditionalRest? : Nat → Expr → List Token → Option (Expr × List Token)
  | 0, _, _ => none
  | fuel + 1, test, .question :: ts => do
    let (yes, ts) ← transformed? fuel ts
    match ts with
    | .colon :: ts =>
      let (no, ts) ← transformed? fuel ts
      conditionalRest? fuel (.conditional test yes no) ts
    | _ => none
  | _ + 1, test, ts => some (test, ts)

/-- An operand with its transforms. -/
def transformed? : Nat → List Token → Option (Expr × List Token)
  | 0, _ => none
  | fuel + 1, ts => do
    let (subject, ts) ← accessed? fuel ts
    transforms? fuel subject ts

/-- The transforms after an operand. -/
def transforms? : Nat → Expr → List Token → Option (Expr × List Token)
  | 0, _, _ => none
  | fuel + 1, subject, .pipe :: .name f :: .openParen :: ts => do
    let (arguments, ts) ← items? fuel .closeParen ts
    transforms? fuel (.transform subject f arguments) ts
  | fuel + 1, subject, .pipe :: .name f :: ts => transforms? fuel (.transform subject f []) ts
  | _ + 1, _, .pipe :: _ => none
  | _ + 1, subject, ts => some (subject, ts)

/-- An atom with its accesses. -/
def accessed? : Nat → List Token → Option (Expr × List Token)
  | 0, _ => none
  | fuel + 1, ts => do
    let (subject, ts) ← atom? fuel ts
    accesses? fuel subject ts

/-- The accesses after an atom. -/
def accesses? : Nat → Expr → List Token → Option (Expr × List Token)
  | 0, _, _ => none
  | fuel + 1, subject, .dot :: .name f :: ts => accesses? fuel (.member subject f) ts
  | _ + 1, _, .dot :: _ => none
  | fuel + 1, subject, .openBracket :: .dot :: .name f :: .op o :: ts =>
    if o.level = 2 then do
      let (right, ts) ← atom? fuel ts
      match ts with
      | .closeBracket :: ts => accesses? fuel (.filter subject f o right) ts
      | _ => none
    else none
  | fuel + 1, subject, .openBracket :: ts => do
    let (position, ts) ← binary? fuel 1 ts
    match ts with
    | .closeBracket :: ts => accesses? fuel (.index subject position) ts
    | _ => none
  | _ + 1, subject, ts => some (subject, ts)

/-- A literal, a name, an array, an object or an expression in parentheses. -/
def atom? : Nat → List Token → Option (Expr × List Token)
  | 0, _ => none
  | _ + 1, .number x :: ts => some (.number x, ts)
  | _ + 1, .string s :: ts => some (.string s, ts)
  | _ + 1, .bool b :: ts => some (.bool b, ts)
  | _ + 1, .null :: ts => some (.null, ts)
  | _ + 1, .name n :: ts => some (.name n, ts)
  | fuel + 1, .openBracket :: ts =>
    (items? fuel .closeBracket ts).map fun (xs, ts) ↦ (.array xs, ts)
  | fuel + 1, .openBrace :: ts => (members? fuel ts).map fun (ms, ts) ↦ (.object ms, ts)
  | fuel + 1, .openParen :: ts => do
    let (e, ts) ← binary? fuel 1 ts
    match ts with
    | .closeParen :: ts => return (e, ts)
    | _ => none
  | _ + 1, _ => none

/-- Expressions up to a closing token, with a comma after each but possibly the last. -/
def items? : Nat → Token → List Token → Option ((List Expr) × List Token)
  | 0, _, _ => none
  | fuel + 1, close, ts =>
    if ts.head? = some close then some ([], ts.tail)
    else do
      let (e, ts) ← binary? fuel 1 ts
      match ts with
      | .comma :: ts =>
        let (es, ts) ← items? fuel close ts
        return (e :: es, ts)
      | t :: ts => if t = close then return ([e], ts) else none
      | [] => none

/-- The members of an object up to its closing brace. -/
def members? : Nat → List Token → Option ((List (String × Expr)) × List Token)
  | 0, _ => none
  | _ + 1, .closeBrace :: ts => some ([], ts)
  | fuel + 1, .name k :: .colon :: ts | fuel + 1, .string k :: .colon :: ts => do
    let (e, ts) ← binary? fuel 1 ts
    match ts with
    | .comma :: ts =>
      let (ms, ts) ← members? fuel ts
      return ((k, e) :: ms, ts)
    | .closeBrace :: ts => return ([(k, e)], ts)
    | _ => none
  | _ + 1, _ => none

end

/-- The expression that all of a list of tokens makes up. Between two tokens the reader goes at most
twelve calls deeper. -/
def ofTokens? (ts : List Token) : Option Expr :=
  match binary? (12 * ts.length + 12) 1 ts with
  | some (e, []) => some e
  | _ => none

def parse? (source : String) : Option Expr := (Token.scan? source).bind ofTokens?

end Expr

end Workflow.Condition
