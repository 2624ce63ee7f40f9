import Marginalia.Decimal.Digits
import Marginalia.Text.Unprintable

/-!
# Quoted text

Messages show foreign text between quotation marks, with everything escaped that could be mistaken
for something else.
-/

namespace Marginalia.Text

def quotedChar (c : Char) : List Char :=
  if c = '\x00' then ['\\', '0']
  else if c = '\t' then ['\\', 't']
  else if c = '\n' then ['\\', 'n']
  else if c = '\r' then ['\\', 'r']
  else if c = '"' then ['\\', '"']
  else if c = '\\' then ['\\', '\\']
  else if c.toNat < 0x7F ∧ 0x20 ≤ c.toNat then [c]
  else if isUnprintable c then '\\' :: 'u' :: '\x7b' :: Decimal.hex c.toNat ++ ['\x7d']
  else [c]

/-- A text between quotation marks. -/
def quoted (s : String) : String :=
  String.ofList ('"' :: s.toList.flatMap quotedChar ++ ['"'])

end Marginalia.Text
