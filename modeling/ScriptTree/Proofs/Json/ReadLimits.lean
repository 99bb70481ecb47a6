import Mathlib.Algebra.Group.Nat.Defs
import ScriptTree.Proofs.Json.ReadPrinted

/-!
# What the reader lets through

A document that was read keeps to the limits of the reader: its containers are nested no deeper than
the reader goes, and none of its integers has more digits than may be shown (`read?_within`).
Decimals are not bounded: how large one may be is left to what is made of it.

Each scanner is taken by itself, given what the scanner for the values inside it lets through.
-/

namespace ScriptTree

namespace Decimal

theorem digitValue_lt {c : Char} (digit : c.isDigit = true) : digitValue c < 10 := by
  have bounds : 48 ≤ c.toNat ∧ c.toNat ≤ 57 := by
    simpa [Char.isDigit, UInt32.le_iff_toNat_le] using digit
  have zero : '0'.toNat = 48 := rfl
  rw [digitValue, zero]
  omega

/-- A row of digits stands for less than ten to the power of its length. -/
theorem ofDigits_lt {digits : List Char} (all : ∀ c ∈ digits, c.isDigit = true) :
    ofDigits digits < 10 ^ digits.length := by
  have from_ (n : Nat) :
      digits.foldl (fun n c => 10 * n + digitValue c) n < (n + 1) * 10 ^ digits.length := by
    induction digits generalizing n with
    | nil => simp
    | cons c rest ih =>
        obtain ⟨here, later⟩ := List.forall_mem_cons.mp all
        have below := digitValue_lt here
        calc
          _ < (10 * n + digitValue c + 1) * 10 ^ rest.length := ih later _
          _ ≤ (n + 1) * 10 * 10 ^ rest.length := Nat.mul_le_mul_right _ (by omega)
          _ = (n + 1) * 10 ^ (c :: rest).length := by
            rw [List.length_cons, Nat.pow_succ', Nat.mul_assoc]
  simpa [ofDigits] using from_ 0

/-- An integer below a power of ten is short enough to be shown. -/
theorem fits_of_natAbs_lt {n : Int} (digits : Nat) (below : n.natAbs < 10 ^ digits)
    (few : digits ≤ maxDigits) : fits n = true := by
  unfold fits
  -- the power itself is not computed
  generalize maxDigits = bound at few ⊢
  exact decide_eq_true (Nat.lt_of_lt_of_le below (Nat.pow_le_pow_right (by omega) few))

theorem fits_neg {n : Int} : fits (-n) = fits n := by
  rw [fits, fits, Int.natAbs_neg]

end Decimal

namespace Json

/-- A document in which every integer is short enough to be shown. -/
inductive Fits : Json → Prop
  | null : Fits .null
  | bool {value : Bool} : Fits (.bool value)
  | int {value : Int} (fits : Decimal.fits value = true) : Fits (.int value)
  | decimal {negative : Bool} {mantissa : Nat} {exponent : Int} :
      Fits (.decimal negative mantissa exponent)
  | nan : Fits .nan
  | infinity {negative : Bool} : Fits (.infinity negative)
  | string {value : String} : Fits (.string value)
  | array {items : List Json} (all : ∀ item ∈ items, item.Fits) : Fits (.array items)
  | object {members : List (String × Json)} (all : ∀ member ∈ members, member.2.Fits) :
      Fits (.object members)

/-- A document that keeps to the limit for integers and is nested less deep than a bound. -/
structure Within (bound : Nat) (json : Json) : Prop where
  fits : json.Fits
  depth_lt : json.depth < bound

theorem within_array {bound : Nat} {items : List Json} (all : ∀ item ∈ items, Within bound item) :
    Within (bound + 1) (.array items) where
  fits := .array fun item listed => (all item listed).fits
  depth_lt := Nat.lt_succ_of_le (depth_array_le.mpr fun item listed => (all item listed).depth_lt)

theorem within_object {bound : Nat} {members : List (String × Json)}
    (all : ∀ member ∈ members, Within bound member.2) : Within (bound + 1) (.object members) where
  fits := .object fun member listed => (all member listed).fits
  depth_lt :=
    Nat.lt_succ_of_le (depth_object_le.mpr fun member listed => (all member listed).depth_lt)

/-- Whatever the scanner finds has the property. -/
def Finds {α : Type} (scan : Scanner α) (P : α → Prop) : Prop :=
  ∀ ⦃text found rest⦄, scan text = some (found, rest) → P found

/-! ## Numbers -/

section Numbers

variable {limits : Limits} {bound : Nat}

theorem finds_constant {word : String} {value : Json} {P : Json → Prop} (holds : P value) :
    Finds (scanConstant word value) P := by
  intro text found rest scanned
  obtain ⟨_, _, pair⟩ := Option.map_eq_some_iff.mp scanned
  exact (Prod.mk.inj pair).1 ▸ holds

theorem isDigit_of_scanWhole {text digits rest : List Char}
    (scanned : scanWhole text = some (digits, rest)) : ∀ c ∈ digits, c.isDigit = true := by
  have same : scanDigits text = (digits, rest) := by
    unfold scanWhole at scanned
    split at scanned
    · contradiction
    · contradiction
    · exact Option.some.inj scanned
  rw [← (Prod.mk.inj same).1]
  exact List.all_eq_true.mp List.all_takeWhile

/-- An integer is as short as the limit wants it, a decimal is not looked at. -/
theorem finds_unsigned (few : limits.digits ≤ Decimal.maxDigits) (negative : Bool) :
    Finds (scanUnsigned limits negative) (Within (bound + 1)) := by
  intro text found rest scanned
  obtain ⟨⟨whole, afterWhole⟩, wholeScanned, scanned⟩ := Option.bind_eq_some_iff.mp scanned
  dsimp only at scanned
  split at scanned
  · contradiction
  · rename_i short
    obtain ⟨⟨fraction, afterFraction⟩, -, scanned⟩ := Option.bind_eq_some_iff.mp scanned
    obtain ⟨⟨exponent, afterExponent⟩, -, scanned⟩ := Option.bind_eq_some_iff.mp scanned
    have below := Decimal.ofDigits_lt (isDigit_of_scanWhole wholeScanned)
    have fits : Decimal.fits (Decimal.ofDigits whole) = true :=
      Decimal.fits_of_natAbs_lt _ below (by omega)
    dsimp only at scanned
    split at scanned
    · obtain ⟨rfl, -⟩ := Prod.mk.inj (Option.some.inj scanned)
      refine ⟨.int ?_, Nat.succ_pos _⟩
      cases negative
      · exact fits
      · exact Decimal.fits_neg.trans fits
    · obtain ⟨rfl, -⟩ := Prod.mk.inj (Option.some.inj scanned)
      exact ⟨.decimal, Nat.succ_pos _⟩

theorem finds_number (few : limits.digits ≤ Decimal.maxDigits) :
    Finds (scanNumber limits) (Within (bound + 1)) := by
  intro text found rest scanned
  unfold scanNumber at scanned
  split at scanned
  · exact finds_constant ⟨.infinity, Nat.succ_pos _⟩ scanned
  · exact finds_unsigned few true scanned
  · exact finds_unsigned few false scanned

end Numbers

/-! ## Arrays and objects -/

section Containers

variable {scan : Scanner Json} {bound : Nat}

theorem finds_items (inner : Finds scan (Within bound)) {before : List Json}
    (old : ∀ item ∈ before, Within bound item) (room : Nat) :
    Finds (scanItems scan room before) (Within (bound + 1)) := by
  induction room generalizing before with
  | zero => exact nofun
  | succ room ih =>
      intro text found rest scanned
      unfold scanItems at scanned
      split at scanned
      · obtain ⟨rfl, -⟩ := Prod.mk.inj (Option.some.inj scanned)
        exact within_array fun item listed => old item (List.mem_reverse.mp listed)
      · obtain ⟨⟨item, after⟩, itemScanned, scanned⟩ := Option.bind_eq_some_iff.mp scanned
        exact ih (List.forall_mem_cons.mpr ⟨inner itemScanned, old⟩) scanned
      · contradiction

theorem finds_array (inner : Finds scan (Within bound)) :
    Finds (scanArray scan) (Within (bound + 1)) := by
  intro text found rest scanned
  unfold scanArray at scanned
  split at scanned
  · obtain ⟨rfl, -⟩ := Prod.mk.inj (Option.some.inj scanned)
    exact within_array nofun
  · obtain ⟨⟨item, after⟩, itemScanned, scanned⟩ := Option.bind_eq_some_iff.mp scanned
    have first := List.forall_mem_singleton.mpr (inner itemScanned)
    exact finds_items inner first _ scanned

theorem finds_member (inner : Finds scan (Within bound)) :
    Finds (scanMember scan) fun member => Within bound member.2 := by
  intro text found rest scanned
  obtain ⟨⟨name, after⟩, -, scanned⟩ := Option.bind_eq_some_iff.mp scanned
  dsimp only at scanned
  split at scanned
  · obtain ⟨⟨value, after⟩, valueScanned, scanned⟩ := Option.bind_eq_some_iff.mp scanned
    obtain ⟨rfl, -⟩ := Prod.mk.inj (Option.some.inj scanned)
    exact inner valueScanned
  · contradiction

theorem finds_members (inner : Finds scan (Within bound)) {before : List (String × Json)}
    (old : ∀ member ∈ before, Within bound member.2) (room : Nat) :
    Finds (scanMembers scan room before) (Within (bound + 1)) := by
  induction room generalizing before with
  | zero => exact nofun
  | succ room ih =>
      intro text found rest scanned
      unfold scanMembers at scanned
      split at scanned
      · obtain ⟨rfl, -⟩ := Prod.mk.inj (Option.some.inj scanned)
        exact within_object fun member listed => old member (List.mem_reverse.mp listed)
      · obtain ⟨⟨member, after⟩, memberScanned, scanned⟩ := Option.bind_eq_some_iff.mp scanned
        exact ih (List.forall_mem_cons.mpr ⟨finds_member inner memberScanned, old⟩) scanned
      · contradiction

theorem finds_object (inner : Finds scan (Within bound)) :
    Finds (scanObject scan) (Within (bound + 1)) := by
  intro text found rest scanned
  unfold scanObject at scanned
  split at scanned
  · obtain ⟨rfl, -⟩ := Prod.mk.inj (Option.some.inj scanned)
    exact within_object nofun
  · obtain ⟨⟨member, after⟩, memberScanned, scanned⟩ := Option.bind_eq_some_iff.mp scanned
    have first : ∀ listed ∈ [member], Within bound listed.2 :=
      List.forall_mem_singleton.mpr (finds_member inner memberScanned)
    exact finds_members inner first _ scanned

end Containers

/-! ## Whole documents -/

section Documents

variable {limits : Limits} {bound : Nat}

theorem finds_valueWith (few : limits.digits ≤ Decimal.maxDigits) {inner : Scanner Json}
    (finds : Finds inner (Within bound)) :
    Finds (scanValueWith limits inner) (Within (bound + 1)) := by
  intro text found rest scanned
  unfold scanValueWith at scanned
  split at scanned
  · obtain ⟨_, _, pair⟩ := Option.map_eq_some_iff.mp scanned
    exact (Prod.mk.inj pair).1 ▸ ⟨.string, Nat.succ_pos _⟩
  · exact finds_array finds scanned
  · exact finds_object finds scanned
  · exact finds_constant ⟨.bool, Nat.succ_pos _⟩ scanned
  · exact finds_constant ⟨.bool, Nat.succ_pos _⟩ scanned
  · exact finds_constant ⟨.null, Nat.succ_pos _⟩ scanned
  · exact finds_constant ⟨.nan, Nat.succ_pos _⟩ scanned
  · exact finds_constant ⟨.infinity, Nat.succ_pos _⟩ scanned
  · exact finds_number few scanned

theorem finds_value (few : limits.digits ≤ Decimal.maxDigits) (depth : Nat) :
    Finds (scanValue limits depth) (Within (depth + 1)) := by
  induction depth with
  | zero =>
      have nothing : Finds (fun _ => none) (Within 0) := by
        rintro _ _ _ ⟨⟩
      exact finds_valueWith few nothing
  | succ depth ih => exact finds_valueWith few ih

/-- A document that was read keeps to the limits of the reader. -/
theorem read?_within (few : limits.digits ≤ Decimal.maxDigits) {text : List Char} {json : Json}
    (read : read? limits text = some json) : Within (limits.depth + 1) json := by
  obtain ⟨⟨found, after⟩, scanned, rest⟩ := Option.bind_eq_some_iff.mp read
  dsimp only at rest
  split at rest
  · exact Option.some.inj rest ▸ finds_value few _ scanned
  · contradiction

end Documents

end Json

end ScriptTree
