import Workflow.Yaml.Node
import Workflow.Yaml.Token.Stream

/-!
# Documents from tokens

The grammar of documents over tokens. `Document.ofText?` reads a text that holds at most one
document. Every function of the grammar takes what is left to read and returns what it leaves; its
first argument bounds the depth of the recursion and is large enough for any list of tokens.
-/

namespace Workflow.Yaml

/-- What the grammar still has to read, with the anchors met so far. -/
structure Reading where
  tokens : List Token
  /-- The number of every anchor, the latest first. A new anchor gets the number of different names
  before it. -/
  anchors : List (List Char × Nat) := []

namespace Reading

/-- Goes past a token. -/
def skip (r : Reading) : Reading := { r with tokens := r.tokens.tail }

/-- Gives a node its anchor. -/
def register (name : List Char) (r : Reading) : Nat × Reading :=
  let id := (r.anchors.map (·.1)).eraseDups.length
  (id, { r with anchors := (name, id) :: r.anchors })

/-- The expansions of handles: those of the document's directives and two that always exist. -/
abbrev Handles := List (List Char × List Char)

/-- The handles that need no directive. -/
def standardHandles : Handles := [(['!'], ['!']), (['!', '!'], "tag:yaml.org,2002:".toList)]

/-- The full text of a tag. -/
def tag? (handles : Handles) (name : TagName) : Option String :=
  if name.handle.isEmpty then some (String.ofList name.suffix)
  else do
    let expansion ← handles.lookup name.handle
    return String.ofList (expansion ++ name.suffix)

/-- What may stand before the content of a node. -/
structure Properties where
  anchor : Option (List Char) := none
  tag : Option TagName := none

/-- Reads an anchor and a tag in either order. -/
def properties (r : Reading) : Properties × Reading :=
  match r.tokens with
  | .anchor a :: .tag t :: rest => (⟨some a, some t⟩, { r with tokens := rest })
  | .tag t :: .anchor a :: rest => (⟨some a, some t⟩, { r with tokens := rest })
  | .anchor a :: rest => (⟨some a, none⟩, { r with tokens := rest })
  | .tag t :: rest => (⟨none, some t⟩, { r with tokens := rest })
  | _ => ({}, r)

/-- Whether the next token is one of some tokens. -/
def next (r : Reading) (tokens : List Token) : Bool := r.tokens.head?.any tokens.contains

mutual

/-- Reads a node. In block context it may be a block collection; `compact` says that a sequence may
stand at the column of the mapping around it. -/
def node (handles : Handles) : Nat → Bool → Bool → Reading → Option (Node × Reading)
  | 0, _, _, _ => none
  | fuel + 1, block, compact, r =>
    match r.tokens with
    | .reference name :: _ => do
      let id ← r.anchors.lookup name
      return (.reference id, r.skip)
    | _ => do
      let (p, r) := r.properties
      let tag ← p.tag.mapM (tag? handles)
      let (id, r) :=
        match p.anchor with
        | some name => let (id, r) := r.register name; (some id, r)
        | none => (none, r)
      let (n, r) ← content handles fuel block compact tag (p.anchor.isSome || p.tag.isSome) r
      return (match id with
        | some id => .anchor id n
        | none => n, r)

/-- Reads the content of a node after its properties, which may stand alone. -/
def content (handles : Handles) :
    Nat → Bool → Bool → Option String → Bool → Reading → Option (Node × Reading)
  | 0, _, _, _, _, _ => none
  | fuel + 1, block, compact, tag, alone, r =>
    match r.tokens with
    | .blockEntry :: _ =>
      if compact then do
        let (items, r) ← compactItems handles fuel r
        return (.sequence tag items, r)
      else if alone then some (.scalar tag true "", r)
      else none
    | .scalar plain text :: _ =>
      -- The tag `!` only says that a scalar is not looked at for its type by its tag.
      let tag := if tag == some "!" then none else tag
      some (.scalar tag plain (String.ofList text), r.skip)
    | .flowSequenceStart :: _ => do
      let (items, r) ← flowItems handles fuel true r.skip
      return (.sequence tag items, r)
    | .flowMappingStart :: _ => do
      let (entries, r) ← flowEntries handles fuel true r.skip
      return (.mapping tag entries, r)
    | .blockSequenceStart :: _ =>
      if block then do
        let (items, r) ← blockItems handles fuel r.skip
        return (.sequence tag items, r)
      else if alone then some (.scalar tag true "", r)
      else none
    | .blockMappingStart :: _ =>
      if block then do
        let (entries, r) ← blockEntries handles fuel r.skip
        return (.mapping tag entries, r)
      else if alone then some (.scalar tag true "", r)
      else none
    | _ => if alone then some (.scalar tag true "", r) else none

/-- Reads a node unless a token says that none is written. -/
def nodeUnless (handles : Handles) :
    Nat → Bool → Bool → List Token → Reading → Option (Node × Reading)
  | 0, _, _, _, _ => none
  | fuel + 1, block, compact, ends, r =>
    if r.next ends then some (.empty, r) else node handles fuel block compact r

def blockItems (handles : Handles) : Nat → Reading → Option (List Node × Reading)
  | 0, _ => none
  | fuel + 1, r =>
    match r.tokens with
    | .blockEntry :: _ => do
      let (n, r) ← nodeUnless handles fuel true false [.blockEntry, .blockEnd] r.skip
      let (ns, r) ← blockItems handles fuel r
      return (n :: ns, r)
    | .blockEnd :: _ => some ([], r.skip)
    | _ => none

/-- Reads the items of a sequence at the column of the mapping around it. -/
def compactItems (handles : Handles) : Nat → Reading → Option (List Node × Reading)
  | 0, _ => none
  | fuel + 1, r =>
    match r.tokens with
    | .blockEntry :: _ => do
      let (n, r) ← nodeUnless handles fuel true false [.blockEntry, .key, .value, .blockEnd] r.skip
      let (ns, r) ← compactItems handles fuel r
      return (n :: ns, r)
    | _ => some ([], r)

def blockEntries (handles : Handles) : Nat → Reading → Option (List (Node × Node) × Reading)
  | 0, _ => none
  | fuel + 1, r =>
    match r.tokens with
    | .key :: _ => do
      let ends := [.key, .value, .blockEnd]
      let (k, r) ← nodeUnless handles fuel true true ends r.skip
      let (v, r) ←
        if r.next [.value] then nodeUnless handles fuel true true ends r.skip
        else some (.empty, r)
      let (es, r) ← blockEntries handles fuel r
      return ((k, v) :: es, r)
    | .blockEnd :: _ => some ([], r.skip)
    | _ => none

def flowItems (handles : Handles) : Nat → Bool → Reading → Option (List Node × Reading)
  | 0, _, _ => none
  | fuel + 1, first, r =>
    if r.next [.flowSequenceEnd] then some ([], r.skip)
    else do
      let r ← if first then some r else if r.next [.flowEntry] then some r.skip else none
      if r.next [.flowSequenceEnd] then return ([], r.skip)
      let (n, r) ←
        if r.next [.key] then pair handles fuel r.skip else node handles fuel false false r
      let (ns, r) ← flowItems handles fuel false r
      return (n :: ns, r)

/-- Reads the single entry of a mapping that is written as an item of a flow sequence. -/
def pair (handles : Handles) : Nat → Reading → Option (Node × Reading)
  | 0, _ => none
  | fuel + 1, r => do
    -- A key that is not written takes the token that follows with it.
    let (k, r) ←
      if r.next [.value, .flowEntry, .flowSequenceEnd] then some (.empty, r.skip)
      else node handles fuel false false r
    let (v, r) ←
      if r.next [.value] then
        nodeUnless handles fuel false false [.flowEntry, .flowSequenceEnd] r.skip
      else some (.empty, r)
    return (.mapping none [(k, v)], r)

def flowEntries (handles : Handles) : Nat → Bool → Reading → Option (List (Node × Node) × Reading)
  | 0, _, _ => none
  | fuel + 1, first, r =>
    if r.next [.flowMappingEnd] then some ([], r.skip)
    else do
      let r ← if first then some r else if r.next [.flowEntry] then some r.skip else none
      if r.next [.flowMappingEnd] then return ([], r.skip)
      let (k, v, r) ←
        if r.next [.key] then do
          let (k, r) ←
            nodeUnless handles fuel false false [.value, .flowEntry, .flowMappingEnd] r.skip
          if r.next [.value] then do
            let (v, r) ← nodeUnless handles fuel false false [.flowEntry, .flowMappingEnd] r.skip
            some (k, v, r)
          else some (k, .empty, r)
        else do
          let (k, r) ← node handles fuel false false r
          some (k, .empty, r)
      let (es, r) ← flowEntries handles fuel false r
      return ((k, v) :: es, r)

end

end Reading

/-! ## Documents -/

/-- The directives before a document. -/
structure Directives where
  version : Option (Nat × Nat) := none
  handles : Reading.Handles := []

/-- Reads the directives. Only versions 1.1 and 1.2 are known, and nothing may be said twice. -/
def Directives.read? (d : Directives) : List Token → Option (Directives × List Token)
  | .versionDirective major minor :: ts =>
    if d.version.isSome || major != 1 || !(minor == 1 || minor == 2) then none
    else read? { d with version := some (major, minor) } ts
  | .tagDirective handle expansion :: ts =>
    if (d.handles.lookup handle).isSome then none
    else read? { d with handles := d.handles ++ [(handle, expansion)] } ts
  | ts => some (d, ts)

/-- Whether a token stands before a document or marks its start. -/
def Token.opensDocument : Token → Bool
  | .versionDirective .. | .tagDirective .. | .documentStart => true
  | _ => false

/-- The document of a list of tokens; `none` inside when there is no document at all. -/
def Document.ofTokens? (tokens : List Token) : Option (Option Node) := do
  if tokens.isEmpty then return none
  let fuel := 4 * tokens.length + 8
  let (root, r) ←
    if tokens.head?.any Token.opensDocument then do
      let (d, rest) ← Directives.read? {} tokens
      match rest with
      | .documentStart :: rest =>
        if rest.head?.all fun t ↦ t.opensDocument || t == .documentEnd then
          some (Node.empty, Reading.mk rest [])
        else Reading.node (d.handles ++ Reading.standardHandles) fuel true false ⟨rest, []⟩
      | _ => none
    else Reading.node Reading.standardHandles fuel true false ⟨tokens, []⟩
  if r.tokens.all (· == .documentEnd) then some (some root) else none

def Document.ofText? (text : String) : Option (Option Node) := do
  Document.ofTokens? (← Token.ofSource? (← Source.ofText? text))

end Workflow.Yaml
