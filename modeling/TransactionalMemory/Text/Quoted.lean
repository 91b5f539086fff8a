import TransactionalMemory.Text.Visible

/-! # Quoted text

A text is quoted between two equal marks.  Inside, the mark and the backslash get a backslash, the
four usual control characters have their letter, and whatever has no visible form of its own is
given by its code point.
-/

namespace TransactionalMemory

/-- A character as it stands between quotation marks of the given kind. -/
def escaped (mark : Char) (c : Char) : List Char :=
  if c = '\x00' then ['\\', '0']
  else if c = '\t' then ['\\', 't']
  else if c = '\r' then ['\\', 'r']
  else if c = '\n' then ['\\', 'n']
  else if c = '\\' || c = mark then ['\\', c]
  else if isVisible c then [c]
  else ['\\', 'u', '\x7b'] ++ Nat.toDigits 16 c.toNat ++ ['\x7d']

def quotedString (s : String) : String :=
  String.ofList ('"' :: s.toList.flatMap (escaped '"') ++ ['"'])

def quotedChar (c : Char) : String :=
  String.ofList ('\'' :: escaped '\'' c ++ ['\''])

end TransactionalMemory
