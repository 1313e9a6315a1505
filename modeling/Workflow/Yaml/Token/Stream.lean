import Workflow.Yaml.Token.Property
import Workflow.Yaml.Token.Scalar

/-!
# The tokens of a stream

`Token.ofSource?` cuts a stream into tokens. Two rules make this more than a matter of single
characters. Outside of flow collections the column of a token says which block collections it opens
or closes. And any node on a single line may turn out to be a key: it is remembered as a candidate,
and a later colon puts the `key` token in front of it.
-/

namespace Workflow.Yaml

/-- A token that a colon may still make a key. -/
structure KeyCandidate where
  /-- How many tokens stand before it. -/
  position : Nat
  /-- Whether nothing but a key can stand at its place. -/
  required : Bool
  line : Nat
  column : Nat

/-- Where the cutting of a stream stands. -/
structure Tokenizer where
  rest : Source
  /-- The tokens so far, the last one first. -/
  tokens : List Token := []
  /-- The columns of the open block collections, the innermost first. -/
  indents : List Nat := []
  /-- The candidate of every open flow collection, the innermost first, and of the block around. -/
  candidates : List (Option KeyCandidate) := [none]
  /-- Whether a key may start at this place. -/
  keyAllowed : Bool := true

namespace Tokenizer

/-- The longest distance from the start of a key to its colon. -/
def longestKey : Nat := 1024

/-- Whether a flow collection is open. -/
def inFlow (t : Tokenizer) : Bool := 1 < t.candidates.length

/-- The column at which the content of the innermost block collection is indented at least. -/
def leastColumn (t : Tokenizer) : Nat :=
  match t.indents with
  | [] => 0
  | column :: _ => column + 1

/-- The column of the next character. -/
def column (t : Tokenizer) : Nat := (t.rest.head?.map Located.column).getD 0

/-- Adds a token. -/
def push (token : Token) (t : Tokenizer) : Tokenizer := { t with tokens := token :: t.tokens }

/-- Puts tokens in front of the token at a position. -/
def insertAt (position : Nat) (tokens : List Token) (t : Tokenizer) : Tokenizer :=
  let after := t.tokens.length - position
  { t with tokens := t.tokens.take after ++ tokens.reverse ++ t.tokens.drop after }

/-! ## Blank space -/

/-- Skips what separates tokens: blanks, comments and breaks. Outside of flow collections a key may
start after a break, and then a tab does not separate. -/
def separation (inFlow comment keyAllowed : Bool) : Source → Bool × Source
  | [] => (keyAllowed, [])
  | c :: s =>
    if isBreak c.char then separation inFlow false (keyAllowed || !inFlow) s
    else if comment then separation inFlow true keyAllowed s
    else if c.char == ' ' || c.char == '\t' && (inFlow || !keyAllowed) then
      separation inFlow false keyAllowed s
    else if c.char == '#' then separation inFlow true keyAllowed s
    else (keyAllowed, c :: s)

/-- Goes to the next token. -/
def skipSeparation (t : Tokenizer) : Tokenizer :=
  let (keyAllowed, rest) := separation t.inFlow false t.keyAllowed t.rest
  { t with rest, keyAllowed }

/-! ## Candidates for keys -/

/-- Whether a colon at the next character comes too late for a candidate. -/
def isStale (t : Tokenizer) (k : KeyCandidate) : Bool :=
  match t.rest with
  | [] => true
  | c :: _ => k.line < c.line || k.column + longestKey < c.column

/-- Gives up the candidates a colon comes too late for, unless one has to be a key. -/
def dropStale? (t : Tokenizer) : Option Tokenizer :=
  let stale := t.candidates.filter fun k ↦ k.any t.isStale
  if stale.any fun k ↦ k.any KeyCandidate.required then none
  else some { t with candidates := t.candidates.map (·.filter fun k ↦ !t.isStale k) }

/-- Gives up the innermost candidate, unless it has to be a key. -/
def dropCandidate? (t : Tokenizer) : Option Tokenizer :=
  match t.candidates with
  | [] => some t
  | k :: ks =>
    if k.any KeyCandidate.required then none else some { t with candidates := none :: ks }

/-- Makes the next token a candidate, where a key may start. -/
def saveCandidate? (t : Tokenizer) : Option Tokenizer :=
  if t.keyAllowed then do
    let t ← t.dropCandidate?
    -- at the column of an open block mapping there is a key or nothing
    let required := !t.inFlow && t.indents.head? == some t.column
    let line := (t.rest.head?.map Located.line).getD 0
    let candidate : KeyCandidate := ⟨t.tokens.length, required, line, t.column⟩
    return { t with candidates := some candidate :: t.candidates.tail }
  else some t

/-! ## Block collections -/

/-- Closes the block collections that are indented more than a column. -/
def closeTo (least : Nat) : List Nat → List Token → List Nat × List Token
  | [], tokens => ([], tokens)
  | n :: ns, tokens =>
    if least < n then closeTo least ns (.blockEnd :: tokens) else (n :: ns, tokens)

/-- Closes the block collections that the column of the next token ends. -/
def dedent (t : Tokenizer) : Tokenizer :=
  if t.inFlow then t
  else
    let (indents, tokens) := closeTo t.column t.indents t.tokens
    { t with indents, tokens }

def dedentAll (t : Tokenizer) : Tokenizer :=
  if t.inFlow then t
  else { t with indents := [], tokens := t.indents.map (fun _ ↦ .blockEnd) ++ t.tokens }

/-- Opens a block collection at the column of the next token, if it lies deeper. -/
def indent (start : Token) (t : Tokenizer) : Tokenizer :=
  if !t.inFlow && t.leastColumn ≤ t.column then
    { t.push start with indents := t.column :: t.indents }
  else t

/-! ## Single tokens -/

/-- Drops the next characters and adds a token for them. -/
def advance (count : Nat) (token : Token) (t : Tokenizer) : Tokenizer :=
  { t.push token with rest := t.rest.drop count }

/-- Adds the token that a reader finds after the first character. -/
def readToken? (f : Source → Option (Token × Source)) (t : Tokenizer) : Option Tokenizer := do
  let (token, rest) ← f t.rest
  return { t.push token with rest }

/-- A token that starts or ends a document, or a directive, is no part of any collection. -/
def leaveBlocks? (t : Tokenizer) : Option Tokenizer := do
  let t ← t.dedentAll.dropCandidate?
  return { t with keyAllowed := false }

/-- The start of a flow collection, which may be a key itself. -/
def openFlow? (token : Token) (t : Tokenizer) : Option Tokenizer := do
  let t ← t.saveCandidate?
  return { t.advance 1 token with candidates := none :: t.candidates, keyAllowed := true }

/-- The end of a flow collection. -/
def closeFlow? (token : Token) (t : Tokenizer) : Option Tokenizer := do
  let t ← t.dropCandidate?
  let candidates := if t.inFlow then t.candidates.tail else t.candidates
  return { t.advance 1 token with candidates, keyAllowed := false }

/-- The comma of a flow collection. -/
def flowEntry? (t : Tokenizer) : Option Tokenizer := do
  let t ← t.dropCandidate?
  return { t.advance 1 .flowEntry with keyAllowed := true }

/-- The dash before an item. -/
def blockEntry? (t : Tokenizer) : Option Tokenizer := do
  if !t.inFlow && !t.keyAllowed then none
  let t ← (t.indent .blockSequenceStart).dropCandidate?
  return { t.advance 1 .blockEntry with keyAllowed := true }

/-- The question mark before a key. -/
def explicitKey? (t : Tokenizer) : Option Tokenizer := do
  if !t.inFlow && !t.keyAllowed then none
  let t ← (t.indent .blockMappingStart).dropCandidate?
  return { t.advance 1 .key with keyAllowed := !t.inFlow }

/-- The colon before a value. It makes the candidate a key. -/
def value? (t : Tokenizer) : Option Tokenizer :=
  match t.candidates with
  | some k :: ks =>
    -- the first key of a mapping opens it, at the column where the key began
    let opened := !t.inFlow && t.leastColumn ≤ k.column
    let t := t.insertAt k.position (if opened then [.blockMappingStart, .key] else [.key])
    let indents := if opened then k.column :: t.indents else t.indents
    some { t.advance 1 .value with indents, candidates := none :: ks, keyAllowed := false }
  | _ =>
    if !t.inFlow && !t.keyAllowed then none
    else
      let t := t.indent .blockMappingStart
      some { t.advance 1 .value with keyAllowed := !t.inFlow }

/-- A token that may be a key, read by a function. -/
def node? (f : Source → Option (Token × Source)) (t : Tokenizer) : Option Tokenizer := do
  let t ← t.saveCandidate?
  { t with keyAllowed := false }.readToken? f

/-- A block scalar, which is no key. -/
def blockScalar? (literal : Bool) (t : Tokenizer) : Option Tokenizer := do
  let t ← t.dropCandidate?
  let (text, rest) ← Scalar.block literal t.leastColumn (t.rest.drop 1)
  return { t.push (.scalar false text) with rest, keyAllowed := true }

def plainScalar? (t : Tokenizer) : Option Tokenizer := do
  let t ← t.saveCandidate?
  let r ← Scalar.plain t.inFlow t.leastColumn .empty t.rest
  return { t.push (.scalar true r.text) with rest := r.rest, keyAllowed := r.broken }

/-- Characters that have a meaning of their own and start no plain scalar. -/
def isIndicator (c : Char) : Bool := "-?:,[]\x7b\x7d#&*!|>'\"%@`".toList.contains c

/-- Whether a plain scalar starts here. -/
def startsPlain (t : Tokenizer) (c : Char) (after : Source) : Bool :=
  !(isBlank c || isBreak c || isIndicator c) ||
    (c == '-' && !after.startsWith isBlank) ||
    (!t.inFlow && (c == '?' || c == ':') && !after.atGap)

/-- The next token and those that go with it. -/
def step? (t : Tokenizer) : Option Tokenizer :=
  match t.rest with
  | [] => none
  | c :: after =>
    let spaced := t.inFlow || Source.atGap after
    if c.column == 0 && c.char == '%' then do
      (← t.leaveBlocks?).readToken? fun s ↦ Property.directive? (s.drop 1)
    else if t.rest.atMarker '-' then do return (← t.leaveBlocks?).advance 3 .documentStart
    else if t.rest.atMarker '.' then do return (← t.leaveBlocks?).advance 3 .documentEnd
    else if c.char == '[' then t.openFlow? .flowSequenceStart
    else if c.char == '\x7b' then t.openFlow? .flowMappingStart
    else if c.char == ']' then t.closeFlow? .flowSequenceEnd
    else if c.char == '\x7d' then t.closeFlow? .flowMappingEnd
    else if c.char == ',' then t.flowEntry?
    else if c.char == '-' && Source.atGap after then t.blockEntry?
    else if c.char == '?' && spaced then t.explicitKey?
    else if c.char == ':' && spaced then t.value?
    else if c.char == '*' then
      t.node? fun s ↦ (Property.anchorName? (s.drop 1)).map fun (name, r) ↦ (.reference name, r)
    else if c.char == '&' then
      t.node? fun s ↦ (Property.anchorName? (s.drop 1)).map fun (name, r) ↦ (.anchor name, r)
    else if c.char == '!' then
      t.node? fun s ↦ (Property.tag? t.inFlow s).map fun (name, r) ↦ (.tag name, r)
    else if c.char == '|' && !t.inFlow then t.blockScalar? true
    else if c.char == '>' && !t.inFlow then t.blockScalar? false
    else if c.char == '\'' then
      t.node? fun s ↦
        (Scalar.singleQuoted .empty (s.drop 1)).map fun (text, r) ↦ (.scalar false text, r)
    else if c.char == '"' then
      t.node? fun s ↦
        (Scalar.doubleQuoted (.body .empty) (s.drop 1)).map fun (text, r) ↦ (.scalar false text, r)
    else if t.startsPlain c.char after then t.plainScalar?
    else none

/-- All tokens. Each round takes at least one character, so their number bounds the rounds. -/
def run? : Nat → Tokenizer → Option (List Token)
  | 0, _ => none
  | rounds + 1, t => do
    let t ← t.skipSeparation.dropStale?
    if t.rest.isEmpty then return (← t.dedentAll.dropCandidate?).tokens.reverse
    else run? rounds (← t.dedent.step?)

end Tokenizer

/-- The tokens of a stream, or nothing if it cannot be cut into tokens. -/
def Token.ofSource? (s : Source) : Option (List Token) :=
  Tokenizer.run? (s.length + 1) { rest := s }

end Workflow.Yaml
