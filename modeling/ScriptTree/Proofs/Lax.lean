import ScriptTree.Lax
import ScriptTree.Proofs.Json.ReadLimits

/-!
# Lax integers are short

However an integer is written in a document, it is short enough to be shown once it is accepted
(`LaxInt.fits_ofJson`): plain ones are bounded by the reader of documents, those written as text by
the same number of digits, and those written with a fraction or an exponent by 64 bits.
-/

namespace ScriptTree

namespace Binary64

/-- A natural number that is below a power of two as a floating-point number is below it. -/
theorem whole?_lt {size : Size} {n power : Nat} (whole : size.whole? = some n)
    (below : size.atLeastPower power = false) : n < 2 ^ power := by
  cases size with
  | infinite => contradiction
  | finite significand exponent =>
      simp only [Size.whole?, Size.atLeastPower, Nat.pow_eq, decide_eq_false_iff_not,
        Nat.not_le] at whole below
      split at whole
      · cases whole
        have unit : 0 < 2 ^ (-exponent).toNat := Nat.pow_pos (by omega)
        refine Nat.lt_of_mul_lt_mul_right (a := 2 ^ (-exponent).toNat) ?_
        calc
          _ = significand / 2 ^ (-exponent).toNat * 2 ^ (-exponent).toNat * 2 ^ exponent.toNat :=
            Nat.mul_right_comm _ _ _
          _ ≤ significand * 2 ^ exponent.toNat := Nat.mul_le_mul_right _ (Nat.div_mul_le_self _ _)
          _ < _ := below
      · contradiction

end Binary64

namespace LaxInt

theorem fits_natural? {digits : List Char} {n : Nat} (read : natural? digits = some n) :
    Decimal.fits n = true := by
  unfold natural? at read
  split at read
  · contradiction
  · contradiction
  · split at read
    · rename_i plain
      cases read
      exact Decimal.fits_of_natAbs_lt _ (Decimal.ofDigits_lt (List.all_eq_true.mp plain.1)) plain.2
    · contradiction

theorem fits_plain? {text : List Char} {n : Int} (read : plain? text = some n) :
    Decimal.fits n = true := by
  unfold plain? at read
  split at read
  · obtain ⟨_, lifted, rfl⟩ := Option.map_eq_some_iff.mp read
    obtain ⟨size, natural, whole⟩ := Option.bind_eq_some_iff.mp lifted
    cases whole
    exact Decimal.fits_neg.trans (fits_natural? natural)
  · obtain ⟨_, lifted, rfl⟩ := Option.map_eq_some_iff.mp read
    obtain ⟨size, natural, whole⟩ := Option.bind_eq_some_iff.mp lifted
    cases whole
    exact fits_natural? natural

theorem fits_unsigned? {text : List Char} {n : Int} (read : unsigned? text = some n) :
    Decimal.fits n = true := by
  obtain ⟨whole, -, read⟩ := Option.bind_eq_some_iff.mp read
  obtain ⟨joined, -, read⟩ := Option.bind_eq_some_iff.mp read
  exact fits_plain? read

theorem fits_signed? {text : List Char} {n : Int} (read : signed? text = some n) :
    Decimal.fits n = true := by
  unfold signed? at read
  split at read
  · obtain ⟨size, unsigned, read⟩ := Option.bind_eq_some_iff.mp read
    split at read
    · contradiction
    · cases read
      exact Decimal.fits_neg.trans (fits_unsigned? unsigned)
  · contradiction
  · exact fits_unsigned? read
  · exact fits_unsigned? read

theorem fits_ofText {text : String} {n : Int} (accepted : ofText text = .accepted n) :
    Decimal.fits n = true := by
  unfold ofText at accepted
  split at accepted
  · contradiction
  · split at accepted
    · rename_i read
      cases accepted
      exact fits_signed? read
    · contradiction

theorem fits_ofDecimal {negative : Bool} {mantissa : Nat} {exponent n : Int}
    (accepted : ofDecimal negative mantissa exponent = .accepted n) : Decimal.fits n = true := by
  unfold ofDecimal at accepted
  dsimp only at accepted
  split at accepted
  · contradiction
  · split at accepted
    · contradiction
    · rename_i size whole
      split at accepted
      · contradiction
      · rename_i below
        have small := Binary64.whole?_lt whole (Bool.eq_false_iff.mpr below)
        have fits : Decimal.fits size = true :=
          Decimal.fits_of_natAbs_lt 19 (by simp; omega) (by decide)
        cases accepted
        cases negative
        · exact fits
        · exact Decimal.fits_neg.trans fits

/-- An integer that is accepted in a document is short enough to be shown. -/
theorem fits_ofJson {json : Json} {n : Int} (within : json.Fits)
    (accepted : ofJson json = .accepted n) : Decimal.fits n = true := by
  cases within with
  | null => contradiction
  | @bool value =>
      cases accepted
      cases value <;> exact Decimal.fits_of_natAbs_lt 1 (by decide) (by decide)
  | int fits =>
      cases accepted
      exact fits
  | decimal => exact fits_ofDecimal accepted
  | nan => contradiction
  | infinity => contradiction
  | string => exact fits_ofText accepted
  | array => contradiction
  | object => contradiction

end LaxInt

end ScriptTree
