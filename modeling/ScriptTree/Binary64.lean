import ScriptTree.Text.Decimal

/-!
Decimals as floating-point numbers. A decimal with a fraction or an exponent stands for the nearest
number of the binary64 format: 53 significant bits, the least one worth at least `2 ^ -1074`, and
of two numbers equally near the one whose last bit is zero. All of it is exact arithmetic on
natural numbers.
-/

namespace ScriptTree.Binary64

/-- The size of a floating-point number. -/
inductive Size where
  /-- The number `significand * 2 ^ exponent`. -/
  | finite (significand : Nat) (exponent : Int)
  | infinite
  deriving DecidableEq, Repr

/-- The natural number nearest to a quotient; of two equally near the even one. -/
def roundQuotient (num den : Nat) : Nat :=
  let below := num / den
  let twice := 2 * (num % den)
  if twice < den ∨ (twice = den ∧ below % 2 = 0) then below else below + 1

/-- The greatest `e` with `2 ^ e ≤ num / den`, for positive numbers. -/
def floorLog (num den : Nat) : Int :=
  let guess : Int := (num.log2 : Int) - den.log2
  if den * Nat.pow 2 guess.toNat ≤ num * Nat.pow 2 (-guess).toNat then guess else guess - 1

/-- The floating-point number nearest to a positive quotient. -/
def ofQuotient (num den : Nat) : Size :=
  let exponent := max (floorLog num den - 52) (-1074)
  let significand :=
    roundQuotient (num * Nat.pow 2 (-exponent).toNat) (den * Nat.pow 2 exponent.toNat)
  if Nat.pow 2 1024 ≤ significand * Nat.pow 2 exponent.toNat then .infinite
  else .finite significand exponent

/-- The floating-point number nearest to `mantissa * 10 ^ exponent`. Far from one the answer does
not depend on the digits. -/
def ofDecimal (mantissa : Nat) (exponent : Int) : Size :=
  let magnitude := exponent + mantissa.repr.length
  if mantissa = 0 ∨ magnitude < -400 then .finite 0 0
  else if magnitude > 400 then .infinite
  else ofQuotient (mantissa * Nat.pow 10 exponent.toNat) (Nat.pow 10 (-exponent).toNat)

/-- The natural number that a floating-point number is, if it is one. -/
def Size.whole? : Size → Option Nat
  | .infinite => none
  | .finite significand exponent =>
      let unit := Nat.pow 2 (-exponent).toNat
      if significand % unit = 0 then some (significand / unit * Nat.pow 2 exponent.toNat) else none

/-- Whether a floating-point number is at least `2 ^ n`. -/
def Size.atLeastPower : Size → (n : Nat) → Bool
  | .infinite, _ => true
  | .finite significand exponent, n =>
      Nat.pow 2 n * Nat.pow 2 (-exponent).toNat ≤ significand * Nat.pow 2 exponent.toNat

end ScriptTree.Binary64
