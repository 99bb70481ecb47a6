/-!
Integers in decimal. An integer is written with a minus sign when it is negative and without
leading zeros. `text?` refuses integers of more than `maxDigits` digits: a program can compute
with them, but not write them.
-/

namespace ScriptTree.Decimal

/-- The digits of an integer in decimal, after a minus sign when it is negative. -/
def text : Int → String
  | .ofNat n => n.repr
  | .negSucc n => "-" ++ (n + 1).repr

/-- The most digits with which an integer is written where its text is shown. -/
def maxDigits : Nat := 4300

/-- Whether the integer has at most `maxDigits` digits; its sign does not count. -/
def fits (n : Int) : Bool :=
  n.natAbs < Nat.pow 10 maxDigits

/-- The decimal text of an integer that is short enough to be shown. -/
def text? (n : Int) : Option String :=
  if fits n then some (text n) else none

/-- The value of a decimal digit. -/
def digitValue (c : Char) : Nat :=
  c.toNat - '0'.toNat

/-- The number that a row of decimal digits stands for, most significant digit first. -/
def ofDigits (digits : List Char) : Nat :=
  digits.foldl (fun n c => 10 * n + digitValue c) 0

theorem text?_eq_none_iff (n : Int) : text? n = none ↔ fits n = false := by
  unfold text?
  cases fits n <;> simp

end ScriptTree.Decimal
