import SchemaWalk.Text.Extending
import SchemaWalk.Text.Unprintable

/-! # Text in double quotes, for messages that show what was typed -/
namespace SchemaWalk.Text

def hex (n : Nat) : List Char := Nat.toDigits 16 n

/-- Such a character would not be seen, or only as a part of the one before it. -/
def isHidden (c : Char) : Bool :=
  unprintable.contains c || (extending.contains c && !isExtendingLetter c)

def quotedChar (c : Char) : List Char :=
  if c = '\x00' then ['\\', '0']
  else if c = '\t' then ['\\', 't']
  else if c = '\n' then ['\\', 'n']
  else if c = '\r' then ['\\', 'r']
  else if c = '"' then ['\\', '"']
  else if c = '\\' then ['\\', '\\']
  else if isHidden c then ['\\', 'u', '\x7b'] ++ hex c.toNat ++ ['\x7d']
  else [c]

def quotedChars (s : List Char) : List Char := '"' :: s.flatMap quotedChar ++ ['"']

def quoted (s : String) : String := String.ofList (quotedChars s.toList)

end SchemaWalk.Text
