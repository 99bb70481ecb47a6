import ScriptTree.Binary64
import ScriptTree.Checked
import ScriptTree.Json
import ScriptTree.Text.Blank

/-!
Lax scalars. Line numbers, flags and the options of a run may be written in several ways: an integer
also as a flag, as a decimal without a fraction or as text, and a flag also as zero or one or as a
word. Names and constants are strict.
-/

namespace ScriptTree

/-! ## Integers -/

namespace LaxInt

/-- A number without the zeros at its front and the underscores among them, given the character
before it. Where nothing else stands before a point or the end, that last character stays. -/
def afterZeros (last : Char) : List Char → List Char
  | [] => [last]
  | c :: rest =>
      if c = '0' ∨ c = '_' then afterZeros c rest
      else if c = '.' then last :: c :: rest
      else c :: rest

/-- A number without leading zeros. -/
def trimZeros : List Char → List Char
  | '0' :: rest => afterZeros '0' rest
  | text => text

/-- What stands before the point of a text, if nothing but zeros follows it. -/
def beforeZeros? (text : List Char) : Option (List Char) :=
  match text.dropWhile (· ≠ '.') with
  | [] => some text
  | _ :: zeros =>
      if zeros ≠ [] ∧ zeros.all (· = '0') then some (text.takeWhile (· ≠ '.')) else none

/-- A text without its underscores, each of which has to stand between two other characters. -/
def joined? : List Char → Option (List Char)
  | [] => some []
  | '_' :: _ | [_, '_'] => none
  | c :: '_' :: rest | c :: rest => (joined? rest).map (c :: ·)

/-- A natural number in plain digits, without leading zeros and not too long. -/
def natural? (digits : List Char) : Option Nat :=
  match digits with
  | [] | '0' :: _ :: _ => none
  | _ =>
      if digits.all Char.isDigit ∧ digits.length ≤ Decimal.maxDigits then
        some (Decimal.ofDigits digits)
      else none

/-- An integer in plain digits, with a minus sign if it is negative. -/
def plain? : List Char → Option Int
  | '-' :: digits => (natural? digits).map fun n => -n
  | digits => (natural? digits).map fun n => n

/-- The integer that a text without blanks around it stands for. -/
def unsigned? (text : List Char) : Option Int := do
  plain? (← joined? (← beforeZeros? (trimZeros text)))

/-- The integer that a text stands for, after an optional sign. A minus sign may also follow leading
zeros, but there is at most one, and none follows another sign directly. -/
def signed? : List Char → Option Int
  | '-' :: text => (unsigned? text).bind fun n => if text.contains '-' then none else some (-n)
  | '+' :: '-' :: _ => none
  | '+' :: text => unsigned? text
  | text => unsigned? text

/-- Whether a text begins with more plain digits than an integer may have. -/
def overlong (text : List Char) : Bool :=
  let digits := (match text with | '-' :: rest => rest | _ => text).takeWhile Char.isDigit
  digits.head? ≠ some '0' && Decimal.maxDigits < digits.length

/-- An integer written as text, between blanks. -/
def ofText (text : String) : Checked Int :=
  if overlong text.toList then .issue .intParsingSize
  else
    match signed? (Text.trimBlank text.toList) with
    | some n => .accepted n
    | none => .issue .intParsing

/-- The integer that a decimal is when it is read as a floating-point number. -/
def ofDecimal (negative : Bool) (mantissa : Nat) (exponent : Int) : Checked Int :=
  let size := Binary64.ofDecimal mantissa exponent
  match size with
  | .infinite => .issue .finiteNumber
  | .finite .. =>
      match size.whole? with
      | none => .issue .intFromFloat
      | some n =>
          if size.atLeastPower 63 then .issue .intParsingSize
          else .accepted (if negative then -(n : Int) else n)

/-- An integer. -/
def ofJson : Json → Checked Int
  | .int n => .accepted n
  | .bool b => .accepted (if b then 1 else 0)
  | .decimal negative mantissa exponent => ofDecimal negative mantissa exponent
  | .nan | .infinity _ => .issue .finiteNumber
  | .string text => ofText text
  | .null | .array _ | .object _ => .issue .intType

end LaxInt

/-! ## Flags -/

namespace LaxBool

/-- The flag that a word stands for, in whatever case. -/
def ofWord? (word : String) : Option Bool :=
  let word := word.map Char.toLower
  if word ∈ ["1", "true", "t", "yes", "y", "on"] then some true
  else if word ∈ ["0", "false", "f", "no", "n", "off"] then some false
  else none

/-- The flag that a number stands for. Numbers outside the range of 64 bits are of no type that a
flag could be written in. -/
def ofNumber : Int → Checked Bool
  | 0 => .accepted false
  | 1 => .accepted true
  | n => .issue (if -Int.pow 2 63 ≤ n ∧ n < Int.pow 2 63 then .boolParsing else .boolType)

/-- A flag. -/
def ofJson : Json → Checked Bool
  | .bool b => .accepted b
  | .int n => ofNumber n
  | .decimal negative mantissa exponent =>
      match LaxInt.ofDecimal negative mantissa exponent with
      | .accepted n => ofNumber n
      | .refused _ => .issue .boolType
  | .string word => ((ofWord? word).map .accepted).getD (.issue .boolParsing)
  | .null | .nan | .infinity _ | .array _ | .object _ => .issue .boolType

end LaxBool

end ScriptTree
