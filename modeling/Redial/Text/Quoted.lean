import Redial.Text.Hidden

/-!
# Quoted text

Text between quotation marks, with everything escaped that would end it, break its line or not
show. The escapes start with a backslash, which is itself escaped, so a quoted text can be read
back and holds no control character.
-/

namespace Redial.Text

/-- The written form of one character inside the quotation marks. -/
def escape (c : Char) : List Char :=
  if c = '\x00' then ['\\', '0']
  else if c = '\t' then ['\\', 't']
  else if c = '\r' then ['\\', 'r']
  else if c = '\n' then ['\\', 'n']
  else if c = '\\' then ['\\', '\\']
  else if c = '"' then ['\\', '"']
  else if isHidden c then ['\\', 'u', '\x7b'] ++ Nat.toDigits 16 c.toNat ++ ['\x7d']
  else [c]

def quoted (cs : List Char) : List Char := ['"'] ++ cs.flatMap escape ++ ['"']

def quote (s : String) : String := String.ofList (quoted s.toList)

end Redial.Text
