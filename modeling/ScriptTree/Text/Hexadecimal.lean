/-!
Hexadecimal digits. They are written in lower case and read in both cases.
-/

namespace ScriptTree.Text

/-- The last `width` hexadecimal digits of a number, in lower case. -/
def hexDigits : (width : Nat) → Nat → List Char
  | 0, _ => []
  | width + 1, n => hexDigits width (n / 16) ++ [Nat.digitChar (n % 16)]

/-- The value of a hexadecimal digit. -/
def hexValue? (c : Char) : Option Nat :=
  if '0' ≤ c ∧ c ≤ '9' then some (c.toNat - '0'.toNat)
  else if 'a' ≤ c ∧ c ≤ 'f' then some (c.toNat - 'a'.toNat + 10)
  else if 'A' ≤ c ∧ c ≤ 'F' then some (c.toNat - 'A'.toNat + 10)
  else none

/-- Every digit that is written reads back. -/
theorem hexValue?_digitChar {n : Nat} (digit : n < 16) : hexValue? (Nat.digitChar n) = some n := by
  revert n
  decide

end ScriptTree.Text
