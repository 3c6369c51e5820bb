import MessageIndex.Text.Printable

/-!
# Quoted texts

A text inside a message stands in double quotes. The quote and the backslash get a backslash in
front, four control characters have a letter of their own, and any other character that is not shown
as itself is written as its code point in braces.
-/

namespace MessageIndex.Text

/-- A character within quotes. -/
def quotedChar (c : Char) : List Char :=
  match c with
  | '\x00' => ['\\', '0']
  | '\t' => ['\\', 't']
  | '\r' => ['\\', 'r']
  | '\n' => ['\\', 'n']
  | '\\' => ['\\', '\\']
  | '"' => ['\\', '"']
  | c =>
    if isShown c then [c]
    else ['\\', 'u', '\x7b'] ++ Nat.toDigits 16 c.toNat ++ ['\x7d']

/-- A text in quotes. -/
def quoted (s : String) : String :=
  String.ofList ('"' :: s.toList.flatMap quotedChar ++ ['"'])

end MessageIndex.Text
