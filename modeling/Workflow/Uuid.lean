import Workflow.Json.Decode
import Workflow.Text.Digits
import Workflow.Text.Split

/-!
# Universally unique identifiers

An identifier is a number of 128 bits. It is written as five groups of hexadecimal digits with
hyphens between them; it is also read without the hyphens, between braces and as a URN.
`Uuid.Malformed` tells what is wrong with a text that is none.
-/

namespace Workflow

structure Uuid where
  value : BitVec 128
  deriving DecidableEq, Repr

namespace Uuid

/-- The lengths of the groups of digits. -/
def groups : List Nat := [8, 4, 4, 4, 12]

/-- Cuts a list into pieces of given lengths. -/
def cutInto {α : Type} : List Nat → List α → List (List α)
  | [], _ => []
  | n :: ns, s => s.take n :: cutInto ns (s.drop n)

/-- The characters of an identifier, in lower case. -/
def chars (u : Uuid) : List Char :=
  ['-'].intercalate (cutInto groups (Text.hexDigits 32 u.value.toNat))

def text (u : Uuid) : String := String.ofList u.chars

/-- The identifier made at a time, in milliseconds since 1970. The time comes first, so identifiers
grow with it; a version and a variant are marked among the random bits that follow. -/
def ofTime (milliseconds random : Nat) : Uuid where
  value := BitVec.ofNat 48 milliseconds ++ BitVec.ofNat 4 7 ++ BitVec.ofNat 12 (random >>> 62) ++
    BitVec.ofNat 2 2 ++ BitVec.ofNat 62 random

/-! ## Reading -/

/-- What is wrong with a text that is no identifier. -/
inductive Malformed where
  | character (c : Char) (index : Nat)
  | length (n : Nat)
  | groupCount (n : Nat)
  | groupLength (group expected found : Nat)
  deriving DecidableEq, Repr

def Malformed.message : Malformed → String
  | character c index =>
    "invalid character: found " ++ String.ofList ['\x60', c, '\x60'] ++ " at " ++ toString index
  | length n => "invalid length: expected length 32 for simple format, found " ++ toString n
  | groupCount n => "invalid group count: expected 5, found " ++ toString n
  | groupLength group expected found =>
    "invalid group length in group " ++ toString group ++ ": expected " ++ toString expected ++
      ", found " ++ toString found

/-- The number that 32 hexadecimal digits write. -/
def ofDigits? (s : List Char) : Option Uuid := do
  if s.length != 32 then none
  let n ← s.foldlM (fun n c ↦ (Text.hexValue? c).map (16 * n + ·)) 0
  return ⟨.ofNat 128 n⟩

/-- An identifier in groups of digits. -/
def ofGroups? (s : List Char) : Option Uuid :=
  let pieces := Text.splitOn '-' s
  if pieces.map List.length == groups then ofDigits? pieces.flatten else none

/-- What stands before an identifier that is written as a URN. -/
def urn : List Char := "urn:uuid:".toList

/-- A text without the braces or the URN around an identifier, with the number of characters that
were dropped in front; none are when nothing is around it. -/
def unwrap (s : List Char) : List Char × Nat :=
  match s with
  | '\x7b' :: r => if r.getLast? == some '\x7d' then (r.dropLast, 1) else (s, 0)
  | s =>
    match Text.dropStart? urn s with
    | some r => (r, urn.length)
    | none => (s, 0)

/-- The identifier that a text writes. -/
def ofText? (text : String) : Option Uuid :=
  let s := text.toList
  match ofDigits? s with
  | some u => some u
  | none => ofGroups? (unwrap s).1

/-- The first difference between the groups of a text and those of an identifier. -/
def badGroup : Nat → List Nat → List (List Char) → Malformed
  | i, n :: ns, p :: ps =>
    if p.length = n then badGroup (i + 1) ns ps else .groupLength i n p.length
  | i, _, _ => .groupLength i 0 0

/-- What is wrong with a text that is no identifier. -/
def diagnose (text : String) : Malformed :=
  let (s, offset) := unwrap text.toList
  match s.zipIdx.find? fun (c, _) ↦ c != '-' && (Text.hexValue? c).isNone with
  | some (c, i) => .character c (i + offset)
  | none =>
    let pieces := Text.splitOn '-' s
    if pieces.length = 1 && offset = 0 then .length s.length
    else if pieces.length != 5 then .groupCount pieces.length
    else badGroup 0 groups pieces

def decode : Json.Decoder Uuid
  | .string s =>
    match ofText? s with
    | some u => .ok u
    | none => .error (.unreadable ("UUID parsing failed: " ++ (diagnose s).message))
  | v => .error (.wrongKind v "a UUID string")

end Uuid

end Workflow
