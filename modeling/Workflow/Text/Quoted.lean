import Workflow.Text.Combining
import Workflow.Text.Hidden

/-!
# Quoted text in messages

How a message shows a text exactly: between quotes, with the quote and the backslash escaped and
every character without a visible form of its own written by its number.
-/

namespace Workflow.Text

/-- Whether a character has a visible form of its own. -/
def isVisible (c : Char) : Bool := !isHidden c && !isCombining c

/-- A character as it stands between quotes. -/
def showChar (c : Char) : List Char :=
  if c = '"' then ['\\', '"']
  else if c = '\\' then ['\\', '\\']
  else if c = '\n' then ['\\', 'n']
  else if c = '\r' then ['\\', 'r']
  else if c = '\t' then ['\\', 't']
  else if c.toNat = 0 then ['\\', '0']
  else if isVisible c then [c]
  else '\\' :: 'u' :: '\x7b' :: (Nat.toDigits 16 c.toNat ++ ['\x7d'])

def quoted (s : String) : String := String.ofList ('"' :: (s.toList.flatMap showChar ++ ['"']))

end Workflow.Text
