import ScriptTree.Json
import ScriptTree.Text.Decimal
import ScriptTree.Text.Hexadecimal

/-!
Reading a document. The grammar is that of JSON, with the words `NaN`, `Infinity` and `-Infinity`
beside the numbers; blanks may stand around values and marks. Nothing else is let through: no
leading zeros, no trailing commas, no raw control characters, no half of a surrogate pair.

Every scanner takes what is left of the text and gives, with what it found, what is left after it.

Two limits bound what is accepted: how deep containers may be nested, an empty one not counting,
and how many digits the part of a number before its point may have.
-/

namespace ScriptTree.Json

/-- The limits of a reader. -/
structure Limits where
  /-- How deep arrays and objects that are not empty may be nested. -/
  depth : Nat
  /-- How many digits a number may have before its point. -/
  digits : Nat

/-- What is found at the front of a text, and the rest; `none` if nothing fits. -/
abbrev Scanner (α : Type) := List Char → Option (α × List Char)

/-! ## Blanks, words and digits -/

/-- The four characters that may stand between the parts of a document. -/
def isSpace (c : Char) : Bool :=
  c = ' ' || c = '\t' || c = '\n' || c = '\r'

/-- The text without the blanks at its front. -/
def skipSpace (text : List Char) : List Char :=
  text.dropWhile isSpace

/-- A word, letter by letter. -/
def scanWord : (word : List Char) → List Char → Option (List Char)
  | [], text => some text
  | c :: word, d :: text => if c = d then scanWord word text else none
  | _ :: _, [] => none

/-- A word that stands for a value. -/
def scanConstant (word : String) (value : Json) : Scanner Json := fun text =>
  (scanWord word.toList text).map (value, ·)

/-- All digits at the front, possibly none. -/
def scanDigits (text : List Char) : List Char × List Char :=
  (text.takeWhile Char.isDigit, text.dropWhile Char.isDigit)

/-! ## Numbers -/

/-- The digits after a point; none where there is no point. A point needs a digit after it. -/
def scanFraction : Scanner (List Char)
  | '.' :: text =>
      match scanDigits text with
      | ([], _) => none
      | found => some found
  | text => some ([], text)

/-- The digits of an exponent, of which there must be some. -/
def scanExponentDigits (negative : Bool) (text : List Char) : Option (Option Int × List Char) :=
  match scanDigits text with
  | ([], _) => none
  | (digits, rest) =>
      let size : Int := Decimal.ofDigits digits
      some (some (if negative then -size else size), rest)

/-- An exponent, if there is one. -/
def scanExponent : Scanner (Option Int)
  | 'e' :: '-' :: text | 'E' :: '-' :: text => scanExponentDigits true text
  | 'e' :: '+' :: text | 'E' :: '+' :: text => scanExponentDigits false text
  | 'e' :: text | 'E' :: text => scanExponentDigits false text
  | text => some (none, text)

/-- The digits of a number before its point: a zero, or digits that do not begin with one. -/
def scanWhole (text : List Char) : Option (List Char × List Char) :=
  match scanDigits text with
  | ([], _) => none
  | ('0' :: _ :: _, _) => none
  | found => some found

/-- A number after its sign. Without a fraction and an exponent it is an integer. -/
def scanUnsigned (limits : Limits) (negative : Bool) : Scanner Json := fun text => do
  let (whole, text) ← scanWhole text
  if whole.length > limits.digits then none
  else
    let (fraction, text) ← scanFraction text
    let (exponent, text) ← scanExponent text
    match fraction, exponent with
    | [], none =>
        let size : Int := Decimal.ofDigits whole
        some (.int (if negative then -size else size), text)
    | fraction, exponent =>
        some (.decimal negative (Decimal.ofDigits (whole ++ fraction))
          (exponent.getD 0 - fraction.length), text)

/-- A number, or one of the words beside the numbers. -/
def scanNumber (limits : Limits) : Scanner Json
  | '-' :: 'I' :: text => scanConstant "nfinity" (.infinity true) text
  | '-' :: text => scanUnsigned limits true text
  | text => scanUnsigned limits false text

/-! ## Strings -/

/-- The character that a letter stands for after a backslash. -/
def letterEscape? : Char → Option Char
  | '"' => some '"'
  | '\\' => some '\\'
  | '/' => some '/'
  | 'b' => some (Char.ofNat 0x08)
  | 'f' => some (Char.ofNat 0x0c)
  | 'n' => some '\n'
  | 'r' => some '\r'
  | 't' => some '\t'
  | _ => none

/-- Where a scanner stands in a string. `high` is the first half of a surrogate pair whose second
half has to follow. -/
inductive StringPlace where
  /-- Between characters. -/
  | between
  /-- After the first half of a pair. -/
  | afterHigh (high : Nat)
  /-- After a backslash. -/
  | escape (high : Option Nat)
  /-- Inside a `\u` escape, with so many digits to come after the next one. -/
  | unit (high : Option Nat) (digits value : Nat)

/-- The place after a whole `\u` escape, and the characters so far. Halves have to come in pairs,
the high one first. -/
def afterUnit (high : Option Nat) (value : Nat) (found : List Char) :
    Option (StringPlace × List Char) :=
  match high with
  | some high =>
      if 0xdc00 ≤ value ∧ value < 0xe000 then
        let code := 0x10000 + (high - 0xd800) * 0x400 + (value - 0xdc00)
        some (.between, Char.ofNat code :: found)
      else none
  | none =>
      if 0xd800 ≤ value ∧ value < 0xdc00 then some (.afterHigh value, found)
      else if 0xdc00 ≤ value ∧ value < 0xe000 then none
      else some (.between, Char.ofNat value :: found)

/-- What follows one character of a string, other than the quotation mark that ends it: the place
after it, and the characters so far, the last one first. -/
def stringStep (place : StringPlace) (found : List Char) (c : Char) :
    Option (StringPlace × List Char) :=
  match place with
  | .between =>
      if c = '\\' then some (.escape none, found)
      else if c.toNat < 0x20 then none
      else some (.between, c :: found)
  | .afterHigh high => if c = '\\' then some (.escape (some high), found) else none
  | .escape high =>
      if c = 'u' then some (.unit high 3 0, found)
      else if high.isSome then none
      else (letterEscape? c).map fun letter => (.between, letter :: found)
  | .unit high digits value => do
      let digit ← Text.hexValue? c
      let value := 16 * value + digit
      match digits with
      | 0 => afterUnit high value found
      | digits + 1 => some (.unit high digits value, found)

/-- A string from a place in it to its end. -/
def scanStringFrom : StringPlace → (found : List Char) → Scanner String
  | .between, found, '"' :: text => some (String.ofList found.reverse, text)
  | place, found, c :: text => do
      let (place, found) ← stringStep place found c
      scanStringFrom place found text
  | _, _, [] => none

/-- A string. -/
def scanString : Scanner String
  | '"' :: text => scanStringFrom .between [] text
  | _ => none

/-! ## Values -/

/-- The rest of an array after one of its items. The text bounds how many items can follow. -/
def scanItems (scan : Scanner Json) : (bound : Nat) → (found : List Json) → Scanner Json
  | 0, _, _ => none
  | bound + 1, found, text =>
      match skipSpace text with
      | ']' :: text => some (.array found.reverse, text)
      | ',' :: text => do
          let (item, text) ← scan (skipSpace text)
          scanItems scan bound (item :: found) text
      | _ => none

/-- A member of an object: its name, a colon and its value. -/
def scanMember (scan : Scanner Json) : Scanner (String × Json) := fun text => do
  let (name, text) ← scanString text
  match skipSpace text with
  | ':' :: text => do
      let (value, text) ← scan (skipSpace text)
      some ((name, value), text)
  | _ => none

/-- The rest of an object after one of its members. -/
def scanMembers (scan : Scanner Json) :
    (bound : Nat) → (found : List (String × Json)) → Scanner Json
  | 0, _, _ => none
  | bound + 1, found, text =>
      match skipSpace text with
      | '}' :: text => some (.object found.reverse, text)
      | ',' :: text => do
          let (member, text) ← scanMember scan (skipSpace text)
          scanMembers scan bound (member :: found) text
      | _ => none

/-- An array after its opening bracket, given a scanner for its items. -/
def scanArray (scan : Scanner Json) (text : List Char) : Option (Json × List Char) :=
  match skipSpace text with
  | ']' :: text => some (.array [], text)
  | text => do
      let (item, text) ← scan text
      scanItems scan (text.length + 1) [item] text

/-- An object after its opening brace, given a scanner for the values of its members. -/
def scanObject (scan : Scanner Json) (text : List Char) : Option (Json × List Char) :=
  match skipSpace text with
  | '}' :: text => some (.object [], text)
  | text => do
      let (member, text) ← scanMember scan text
      scanMembers scan (text.length + 1) [member] text

/-- A value, given a scanner for the values inside it. -/
def scanValueWith (limits : Limits) (inner : Scanner Json) : Scanner Json
  | '"' :: text => (scanString ('"' :: text)).map fun (value, text) => (.string value, text)
  | '[' :: text => scanArray inner text
  | '{' :: text => scanObject inner text
  | 't' :: text => scanConstant "rue" (.bool true) text
  | 'f' :: text => scanConstant "alse" (.bool false) text
  | 'n' :: text => scanConstant "ull" .null text
  | 'N' :: text => scanConstant "aN" .nan text
  | 'I' :: text => scanConstant "nfinity" (.infinity false) text
  | text => scanNumber limits text

/-- A value in which containers that are not empty are nested at most `depth` deep. -/
def scanValue (limits : Limits) : (depth : Nat) → Scanner Json
  | 0 => scanValueWith limits fun _ => none
  | depth + 1 => scanValueWith limits (scanValue limits depth)

/-- The document that a text holds, if it holds one and nothing else. -/
def read? (limits : Limits) (text : List Char) : Option Json := do
  let (json, text) ← scanValue limits limits.depth (skipSpace text)
  if skipSpace text = [] then some json else none

/-- The limits within which programs are read. -/
def Limits.standard : Limits := { depth := 200, digits := Decimal.maxDigits }

end ScriptTree.Json
