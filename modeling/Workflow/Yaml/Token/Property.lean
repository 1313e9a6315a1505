import Workflow.Text.Digits
import Workflow.Yaml.Token

/-!
# Names, tags and directives

Readers for anchors, aliases, tags and the directives before a document. A tag may hold octets
written with a percent sign; they have to form characters of one to four octets and are kept as
octets.
-/

namespace Workflow.Yaml.Property

/-- Reads the characters of a name. -/
def spanName (s : Source) : List Char × Source :=
  ((s.takeWhile fun c ↦ isNameChar c.char).map Located.char, s.dropWhile fun c ↦ isNameChar c.char)

/-- Reads the name of an anchor or alias after its indicator. -/
def anchorName? (s : Source) : Option (List Char × Source) :=
  let (name, rest) := spanName s
  let ended := rest.atGap || rest.startsWith fun c ↦ "?:,]\x7d%@`".toList.contains c
  if !name.isEmpty && ended then some (name, rest) else none

/-! ## Tags -/

/-- The characters of a tag; a comma and brackets only where no flow collection could need them. -/
def isTagChar (wide : Bool) (c : Char) : Bool :=
  isNameChar c || ";/?:@&=+$.!~*'()".toList.contains c || wide && (c == ',' || c == '[' || c == ']')

/-- How many octets follow the first octet of a character. -/
def followers? (octet : Nat) : Option Nat :=
  if octet < 0x80 then some 0
  else if octet / 32 = 6 then some 1
  else if octet / 16 = 14 then some 2
  else if octet / 8 = 30 then some 3
  else none

/-- Reads the characters of a tag; `pending` octets of a character are still missing. -/
def tagText? (wide : Bool) (pending : Nat) : Source → Option (List Char × Source)
  | ⟨'%', _, _⟩ :: a :: b :: s => do
    let octet := 16 * (← Text.hexValue? a.char) + (← Text.hexValue? b.char)
    let pending ←
      if pending = 0 then followers? octet
      else if octet / 64 = 2 then some (pending - 1)
      else none
    let (text, rest) ← tagText? wide pending s
    return (Char.ofNat octet :: text, rest)
  | c :: s =>
    if c.char == '%' then none
    else if pending != 0 then none
    else if isTagChar wide c.char then
      (tagText? wide 0 s).map fun (text, rest) ↦ (c.char :: text, rest)
    else some ([], c :: s)
  | [] => if pending = 0 then some ([], []) else none

/-- Reads a handle: `!`, `!!` or a name between exclamation marks. In a tag the second mark may be
missing, and what was read then belongs to the suffix. -/
def handle? (directive : Bool) : Source → Option (List Char × Source)
  | ⟨'!', _, _⟩ :: s =>
    let (name, rest) := spanName s
    match rest with
    | ⟨'!', _, _⟩ :: rest => some ('!' :: name ++ ['!'], rest)
    | rest => if directive && !name.isEmpty then none else some ('!' :: name, rest)
  | _ => none

/-- Reads a tag, from its exclamation mark on. A gap has to follow, or in a flow collection a
comma. -/
def tag? (flow : Bool) (s : Source) : Option (TagName × Source) := do
  let (name, rest) ←
    match s with
    | _ :: ⟨'<', _, _⟩ :: s => do
      let (text, rest) ← tagText? true 0 s
      match text, rest with
      | _ :: _, ⟨'>', _, _⟩ :: rest => some (TagName.mk [] text, rest)
      | _, _ => none
    | s => do
      let (handle, rest) ← handle? false s
      let (suffix, rest) ← tagText? false 0 rest
      if 1 < handle.length && handle.getLast? == some '!' then
        if suffix.isEmpty then none else some (TagName.mk handle suffix, rest)
      else
        let suffix := handle.drop 1 ++ suffix
        if suffix.isEmpty then some (TagName.mk [] ['!'], rest)
        else some (TagName.mk ['!'] suffix, rest)
  if Source.atGap rest || flow && Source.startsWith rest (· == ',') then some (name, rest) else none

/-! ## Directives -/

/-- Reads a number of at most nine digits. -/
def versionPart? (s : Source) : Option (Nat × Source) :=
  let digits := (s.takeWhile fun c ↦ c.char.isDigit).map Located.char
  if digits.isEmpty || 9 < digits.length then none
  else some (digits.foldl (fun n c ↦ 10 * n + (c.toNat - 48)) 0, s.dropWhile fun c ↦ c.char.isDigit)

/-- Reads a directive after its percent sign, up to the end of its line. -/
def directive? (s : Source) : Option (Token × Source) := do
  let (name, rest) := spanName s
  if !rest.atGap then none
  let (token, rest) ←
    if name == "YAML".toList then do
      let (major, rest) ← versionPart? rest.dropBlanks
      match rest with
      | ⟨'.', _, _⟩ :: rest =>
        let (minor, rest) ← versionPart? rest
        some (Token.versionDirective major minor, rest)
      | _ => none
    else if name == "TAG".toList then do
      let (handle, rest) ← handle? true rest.dropBlanks
      if !Source.startsWith rest isBlank then none
      let (expansion, rest) ← tagText? true 0 rest.dropBlanks
      if expansion.isEmpty || !Source.atGap rest then none
      some (Token.tagDirective handle expansion, rest)
    else none
  return (token, ← Source.dropLineEnd? rest)

end Workflow.Yaml.Property
