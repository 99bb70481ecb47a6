import ScriptTree.Json
import ScriptTree.Text.Decimal
import ScriptTree.Text.Hexadecimal

/-!
The compact text of a document: no blanks, members in their order, and each character of a string
written by an escape function. There are two of them: `escape` leaves every character that may stand
for itself, `escapeAscii` leaves ASCII only.
-/

namespace ScriptTree.Json

/-- A UTF-16 unit as an escape. -/
def unitEscape (unit : Nat) : List Char :=
  '\\' :: 'u' :: Text.hexDigits 4 unit

/-- A character of a string. Quotation mark, backslash and the characters below the space are
escaped, the common ones of them by a letter. -/
def escape (c : Char) : List Char :=
  if c = '"' then ['\\', '"']
  else if c = '\\' then ['\\', '\\']
  else if c.toNat = 0x08 then ['\\', 'b']
  else if c.toNat = 0x0c then ['\\', 'f']
  else if c = '\n' then ['\\', 'n']
  else if c = '\r' then ['\\', 'r']
  else if c = '\t' then ['\\', 't']
  else if c.toNat < 0x20 then unitEscape c.toNat
  else [c]

/-- A character of a string, in ASCII: others are given by their UTF-16 units. -/
def escapeAscii (c : Char) : List Char :=
  if c.toNat < 0x7f then escape c
  else if c.toNat < 0x10000 then unitEscape c.toNat
  else
    let rest := c.toNat - 0x10000
    unitEscape (0xd800 + rest / 0x400) ++ unitEscape (0xdc00 + rest % 0x400)

/-- A string between quotation marks. -/
def printString (escape : Char → List Char) (value : String) : List Char :=
  '"' :: value.toList.flatMap escape ++ ['"']

/-- A decimal number, with an exponent even where it is zero. -/
def printDecimal (negative : Bool) (mantissa : Nat) (exponent : Int) : List Char :=
  (if negative then ['-'] else []) ++ mantissa.repr.toList ++
    'e' :: (Decimal.text exponent).toList

mutual

/-- The text of a document. -/
def print (escape : Char → List Char) : Json → List Char
  | .null => ['n', 'u', 'l', 'l']
  | .bool true => ['t', 'r', 'u', 'e']
  | .bool false => ['f', 'a', 'l', 's', 'e']
  | .int value => (Decimal.text value).toList
  | .decimal negative mantissa exponent => printDecimal negative mantissa exponent
  | .nan => "NaN".toList
  | .infinity negative => (if negative then ['-'] else []) ++ "Infinity".toList
  | .string value => printString escape value
  | .array [] => ['[', ']']
  | .array (item :: rest) => '[' :: print escape item ++ printItems escape rest
  | .object [] => ['{', '}']
  | .object ((name, value) :: rest) =>
      '{' :: printString escape name ++ ':' :: print escape value ++ printMembers escape rest

/-- The items of an array after the first, to its end. -/
def printItems (escape : Char → List Char) : List Json → List Char
  | [] => [']']
  | item :: rest => ',' :: print escape item ++ printItems escape rest

/-- The members of an object after the first, to its end. -/
def printMembers (escape : Char → List Char) : List (String × Json) → List Char
  | [] => ['}']
  | (name, value) :: rest =>
      ',' :: printString escape name ++ ':' :: print escape value ++ printMembers escape rest

end

/-- The text of a document, with all characters of its strings that may stand for themselves. -/
def render (json : Json) : String :=
  String.ofList (json.print escape)

/-- The text of a document in ASCII. -/
def renderAscii (json : Json) : String :=
  String.ofList (json.print escapeAscii)

end ScriptTree.Json
