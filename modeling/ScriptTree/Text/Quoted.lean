import ScriptTree.Text.Hexadecimal
import ScriptTree.Text.Printable

/-!
Quoted text, as it stands in the debug log and in messages that name a variable. Apostrophes
delimit it, unless the text holds an apostrophe and no quotation mark: then quotation marks do. The
delimiter and the backslash are escaped, line feed, carriage return and tab have short escapes,
and every other character that is not printable is given by its code point in the shortest of
three widths.
-/

namespace ScriptTree.Text

namespace Quoted

/-- The character that stands before and after the quoted text. -/
def delimiter (chars : List Char) : Char :=
  if '\'' ∈ chars ∧ '"' ∉ chars then '"' else '\''

/-- A character given by its code point. -/
def codePoint (c : Char) : List Char :=
  if c.toNat < 0x100 then '\\' :: 'x' :: hexDigits 2 c.toNat
  else if c.toNat < 0x10000 then '\\' :: 'u' :: hexDigits 4 c.toNat
  else '\\' :: 'U' :: hexDigits 8 c.toNat

/-- How one character is written between delimiters. -/
def encodeChar (delimiter c : Char) : List Char :=
  if c = delimiter ∨ c = '\\' then ['\\', c]
  else if c = '\n' then ['\\', 'n']
  else if c = '\r' then ['\\', 'r']
  else if c = '\t' then ['\\', 't']
  else if isPrintable c then [c]
  else codePoint c

/-- The text between its delimiters. -/
def encode (chars : List Char) : List Char :=
  let mark := delimiter chars
  mark :: chars.flatMap (encodeChar mark) ++ [mark]

end Quoted

/-- The quoted form of a text. -/
def quoted (text : String) : String :=
  String.ofList (Quoted.encode text.toList)

end ScriptTree.Text
