import Workflow.Json.Printer
import Workflow.Text.Blank
import Workflow.Text.Split

/-!
# Templates

A template is text with placeholders between double braces. `Template.chunks` cuts it into literal
pieces and placeholders by the text alone; rendering then replaces each placeholder by the value of
its key, so nothing that a value brings in is ever expanded again. `chunks_source` says that the
chunks spell the template.
-/

namespace Workflow

open Json (Value)

namespace Template

/-- A piece of a template. -/
inductive Chunk where
  | literal (text : List Char)
  | placeholder (inner : List Char)
  deriving DecidableEq, Repr

def opening : List Char := ['\x7b', '\x7b']

def closing : List Char := ['\x7d', '\x7d']

/-- The text of a chunk in its template. -/
def Chunk.source : Chunk → List Char
  | literal text => text
  | placeholder inner => opening ++ inner ++ closing

/-- The chunks of a template. A placeholder runs from an opening to the next closing; an opening
that is never closed is literal text, with all that follows. -/
def chunks (t : List Char) : List Chunk :=
  match h : Text.breakOn opening t with
  | none => [.literal t]
  | some (before, after) =>
    match h' : Text.breakOn closing after with
    | none => [.literal t]
    | some (inner, rest) =>
      have : rest.length < t.length :=
        Nat.lt_trans (Text.length_after_breakOn (by simp [closing]) h')
          (Text.length_after_breakOn (by simp [opening]) h)
      .literal before :: .placeholder inner :: chunks rest
termination_by t.length

theorem chunks_source (t : List Char) : (chunks t).flatMap Chunk.source = t := by
  fun_induction chunks t with
  | case1 t h => simp [Chunk.source]
  | case2 t before after h h' => simp [Chunk.source]
  | case3 t before after h inner rest h' hlt ih =>
    simp only [List.flatMap_cons, Chunk.source, ih]
    rw [Text.breakOn_eq h, Text.breakOn_eq h']
    simp

/-- The key of a placeholder: what it holds, trimmed. A blank placeholder and one with a blank
inside have no key. -/
def key? (inner : List Char) : Option String :=
  let key := Text.trim inner
  if key.isEmpty || key.any Text.isBlank then none else some (String.ofList key)

/-- A chunk with its value in place. A placeholder without a value stays as it is. -/
def Chunk.render (lookup : String → Option Value) : Chunk → List Char
  | literal text => text
  | placeholder inner =>
    match (key? inner).bind lookup with
    | some v => v.plainText.toList
    | none => (placeholder inner).source

/-- The text of a template over a look-up of keys. -/
def render (lookup : String → Option Value) (template : String) : String :=
  String.ofList ((chunks template.toList).flatMap (Chunk.render lookup))

end Template

end Workflow
