/-!
# Writing compact documents

A record is written as an object without blanks, its fields in the order in which they are declared.
In a text, quote and backslash and the control characters are escaped, five of the latter by a letter
and the others by number; every other character stands as itself.
-/

namespace MessageIndex.Json

/-- A character within a text. -/
def writeChar (c : Char) : List Char :=
  match c with
  | '"' => ['\\', '"']
  | '\\' => ['\\', '\\']
  | '\x08' => ['\\', 'b']
  | '\t' => ['\\', 't']
  | '\n' => ['\\', 'n']
  | '\x0c' => ['\\', 'f']
  | '\r' => ['\\', 'r']
  | c =>
    if c.toNat < 0x20 then
      ['\\', 'u', '0', '0', Nat.digitChar (c.toNat / 16), Nat.digitChar (c.toNat % 16)]
    else [c]

/-- A text in quotes. -/
def writeText (s : String) : List Char := '"' :: s.toList.flatMap writeChar ++ ['"']

/-- A truth value. -/
def writeBoolean (b : Bool) : List Char := if b then "true".toList else "false".toList

/-- A count. -/
def writeCount (n : UInt64) : List Char := Nat.toDigits 10 n.toNat

/-- A text, or null in place of none. -/
def writeOptionalText : Option String → List Char
  | none => "null".toList
  | some s => writeText s

/-- The entries of an object, with a comma between each two. -/
def writeEntries : List (String × List Char) → List Char
  | [] => []
  | [(name, value)] => writeText name ++ ':' :: value
  | (name, value) :: rest => writeText name ++ ':' :: value ++ ',' :: writeEntries rest

/-- An object of named values. -/
def writeObject (entries : List (String × List Char)) : List Char :=
  '\x7b' :: writeEntries entries ++ ['\x7d']

end MessageIndex.Json
