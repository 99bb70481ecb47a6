import Mathlib.Data.Rat.Floor
import ScriptTree.Proofs.Comparisons

/-!
# Division and remainder

The quotient of two integers is rounded toward zero, and the remainder is what the rounded quotient
leaves of the dividend. What that means is said without the operations themselves: by the equation
of division with bounds on the remainder (`Divides`), and by rounding the exact quotient
(`RoundsToZero`). The equation determines both numbers (`Divides.unique`), so what becomes of them
when an operand is negated follows from the equation alone (`Divides.neg_left`,
`Divides.neg_right`).

Operands are checked before anything is computed. With other arguments than two integers the
operators end in a fault that tells what is wrong with these (`Builtin.Unfit`), also where they
would divide by zero. `Builtin.division_fits` puts this together for the functions that the root
scope binds to `/` and `%` at the start.
-/

namespace ScriptTree

/-! ## Dividing integers -/

/-- The dividend is the divisor times the quotient and a remainder, which is smaller than the
divisor and has the sign of the dividend. -/
structure Divides (a b q r : Int) : Prop where
  eq : a = b * q + r
  small : |r| < |b|
  sign : r = 0 ∨ r.sign = a.sign

/-- A number is the exact quotient rounded toward zero: its size is that of the dividend divided by
that of the divisor and rounded down, and its sign is that of the exact quotient. -/
structure RoundsToZero (a b q : Int) : Prop where
  rounded : q = if 0 ≤ (a : ℚ) / b then ⌊(a : ℚ) / b⌋ else ⌈(a : ℚ) / b⌉
  size : q.natAbs = a.natAbs / b.natAbs
  sign : q = 0 ∨ q.sign = a.sign * b.sign
  zero : |a| < |b| → q = 0

variable {a b q r q' r' : Int}

namespace Divides

theorem ne_zero (divides : Divides a b q r) : b ≠ 0 := by
  rintro rfl
  exact absurd divides.small (not_lt.mpr (abs_nonneg r))

theorem nonneg (divides : Divides a b q r) (dividend : 0 ≤ a) : 0 ≤ r := by
  rcases divides.sign with rfl | same
  · exact Int.le_refl 0
  · rwa [← Int.sign_nonneg_iff, same, Int.sign_nonneg_iff]

theorem nonpos (divides : Divides a b q r) (dividend : a ≤ 0) : r ≤ 0 := by
  rcases divides.sign with rfl | same
  · exact Int.le_refl 0
  · rwa [← Int.sign_nonpos_iff, same, Int.sign_nonpos_iff]

/-- Two remainders lie on the same side of zero, so they differ by less than the divisor. -/
theorem abs_sub_lt (divides : Divides a b q r) (divides' : Divides a b q' r') :
    |r' - r| < |b| := by
  have inside := abs_lt.mp divides.small
  have inside' := abs_lt.mp divides'.small
  rw [abs_lt]
  rcases Int.le_total 0 a with above | below
  · have side := divides.nonneg above
    have side' := divides'.nonneg above
    omega
  · have side := divides.nonpos below
    have side' := divides'.nonpos below
    omega

theorem unique (divides : Divides a b q r) (divides' : Divides a b q' r') :
    q' = q ∧ r' = r := by
  have multiple : b * (q - q') = r' - r := by
    have same := divides.eq.symm.trans divides'.eq
    rw [Int.mul_sub]
    omega
  have same : r' - r = 0 := by
    refine Int.eq_zero_of_abs_lt_dvd ((abs_dvd b _).mpr ⟨q - q', multiple.symm⟩) ?_
    exact divides.abs_sub_lt divides'
  rw [same] at multiple
  have same' : q - q' = 0 := (Int.mul_eq_zero.mp multiple).resolve_left divides.ne_zero
  omega

theorem neg_left (divides : Divides a b q r) : Divides (-a) b (-q) (-r) where
  eq := by
    rw [Int.mul_neg, ← Int.neg_add, ← divides.eq]
  small := (abs_neg r).symm ▸ divides.small
  sign := by
    rw [Int.sign_neg, Int.sign_neg, Int.neg_eq_zero, Int.neg_inj]
    exact divides.sign

theorem neg_right (divides : Divides a b q r) : Divides a (-b) (-q) r where
  eq := by
    rw [Int.neg_mul_neg, ← divides.eq]
  small := (abs_neg b).symm ▸ divides.small
  sign := divides.sign

/-- The quotient is the exact one without its fraction, which has the same sign. -/
theorem rounded (divides : Divides a b q r) :
    q = if 0 ≤ (a : ℚ) / b then ⌊(a : ℚ) / b⌋ else ⌈(a : ℚ) / b⌉ := by
  have nonzero : (b : ℚ) ≠ 0 := Int.cast_ne_zero.mpr divides.ne_zero
  have fraction : (a : ℚ) / b = q + r / b := by
    rw [div_eq_iff nonzero, add_mul, div_mul_cancel₀ _ nonzero, mul_comm]
    exact_mod_cast divides.eq
  have small : |(r : ℚ) / b| < 1 := by
    rw [abs_div, div_lt_one (abs_pos.mpr nonzero)]
    exact_mod_cast divides.small
  obtain ⟨lower, upper⟩ := abs_lt.mp small
  split
  · rename_i above
    have side : 0 ≤ (r : ℚ) / b := by
      rcases div_nonneg_iff.mp above with ⟨dividend, divisor⟩ | ⟨dividend, divisor⟩
      · exact div_nonneg (by exact_mod_cast divides.nonneg (by exact_mod_cast dividend)) divisor
      · exact div_nonneg_of_nonpos
          (by exact_mod_cast divides.nonpos (by exact_mod_cast dividend)) divisor
    refine (Int.floor_eq_iff.mpr ⟨?_, ?_⟩).symm <;> rw [fraction] <;> linarith
  · rename_i below
    have side : (r : ℚ) / b ≤ 0 := by
      rcases div_neg_iff.mp (not_le.mp below) with ⟨dividend, divisor⟩ | ⟨dividend, divisor⟩
      · exact div_nonpos_of_nonneg_of_nonpos
          (by exact_mod_cast divides.nonneg (by exact_mod_cast dividend.le)) divisor.le
      · exact div_nonpos_of_nonpos_of_nonneg
          (by exact_mod_cast divides.nonpos (by exact_mod_cast dividend.le)) divisor.le
    refine (Int.ceil_eq_iff.mpr ⟨?_, ?_⟩).symm <;> rw [fraction] <;> linarith

end Divides

theorem divides_tdiv_tmod (a : Int) (nonzero : b ≠ 0) : Divides a b (a.tdiv b) (a.tmod b) where
  eq := (Int.mul_tdiv_add_tmod a b).symm
  small := by
    have positive : 0 < b.natAbs := Int.natAbs_pos.mpr nonzero
    rw [Int.abs_eq_natAbs, Int.abs_eq_natAbs, Int.natAbs_tmod]
    exact_mod_cast Nat.mod_lt a.natAbs positive
  sign := by
    rw [Int.sign_tmod]
    split
    · exact .inl (Int.tmod_eq_zero_of_dvd ‹_›)
    · exact .inr rfl

theorem roundsToZero_tdiv (a : Int) (nonzero : b ≠ 0) : RoundsToZero a b (a.tdiv b) where
  rounded := (divides_tdiv_tmod a nonzero).rounded
  size := Int.natAbs_tdiv a b
  sign := by
    have sign := Int.sign_tdiv a b
    split at sign
    · exact .inl (Int.sign_eq_zero_iff_zero.mp sign)
    · exact .inr sign
  zero := by
    intro smaller
    rw [Int.abs_eq_natAbs, Int.abs_eq_natAbs, Int.ofNat_lt] at smaller
    have sign := Int.sign_tdiv a b
    rw [if_pos smaller] at sign
    exact Int.sign_eq_zero_iff_zero.mp sign

/-! ## The operators -/

namespace Builtin

open ScriptTree.Action

/-- The fault with which an operator on integers refuses its arguments: they are not two, or one of
them is no integer. The latter is shown, unless it holds an integer that is too long. -/
inductive Unfit (heap : Heap) (symbol : String) (arguments : List Value) : Fault → Prop
  | count (wrong : arguments.length ≠ 2) :
    Unfit heap symbol arguments (.failure ⟨.operandCount symbol arguments.length, none⟩)
  | operand {value : Value} {text : String} (two : arguments.length = 2)
      (given : value ∈ arguments) (other : ∀ n, value ≠ .int n)
      (shown : value.display? heap = some text) :
    Unfit heap symbol arguments (.failure ⟨.operandMismatch text symbol, none⟩)
  | tooLong {value : Value} (two : arguments.length = 2) (given : value ∈ arguments)
      (other : ∀ n, value ≠ .int n) (hidden : value.display? heap = none) :
    Unfit heap symbol arguments .digitLimit

section Statements

variable (settings : Settings) (state : State) (symbol : String)

/-- The operator ends in a failure without a line and changes nothing. -/
def FailsWith (a b : Int) (cause : Cause) : Prop :=
  Answers settings state symbol [.int a, .int b] (fun _ _ => False)
    fun fault after => fault = .failure ⟨cause, none⟩ ∧ after = state

/-- The operator refuses the arguments, whatever it would compute, and changes nothing. -/
def Refuses (arguments : List Value) : Prop :=
  Answers settings state symbol arguments (fun _ _ => False)
    fun fault after => Unfit state.heap symbol arguments fault ∧ after = state

/-- What holds of `%` where it takes remainders: where it does not multiply, as it once did. -/
def Modern (holds : Prop) : Prop :=
  settings.legacyModulo = false → holds

end Statements

variable {settings : Settings} {state : State} {symbol : String} {operation : Arithmetic}

theorem ends_integerOperand_other {value : Value} (other : ∀ n, value ≠ .int n)
    {arguments : List Value} (two : arguments.length = 2) (given : value ∈ arguments) :
    (integerOperand symbol value).Ends state (fun _ _ => False)
      fun fault after => Unfit state.heap symbol arguments fault ∧ after = state := by
  have refuses : (do let text ← shown fun heap => value.display? heap
                     fail (.operandMismatch text symbol) : Action Int).Ends state
      (fun _ _ => False)
      fun fault after => Unfit state.heap symbol arguments fault ∧ after = state := by
    rw [ends_bind, Ends, shown]
    cases shown : value.display? state.heap with
    | none => exact ⟨.tooLong two given other shown, rfl⟩
    | some text => exact ⟨.operand two given other shown, rfl⟩
  cases value with
  | int n => exact absurd rfl (other n)
  | _ => exact refuses

/-- An operator on integers refuses whatever is not two integers, before it computes anything. -/
theorem ends_unfit (arguments : List Value) (other : ∀ a b, arguments ≠ [.int a, .int b]) :
    (run (.arithmetic symbol operation) arguments).Ends state (fun _ _ => False)
      fun fault after => Unfit state.heap symbol arguments fault ∧ after = state := by
  obtain _ | ⟨left, _ | ⟨right, _ | ⟨third, rest⟩⟩⟩ := arguments
  case cons.cons.nil =>
    simp only [run, operands, pure_bind, ends_bind]
    by_cases first : ∃ a, left = .int a
    · obtain ⟨a, rfl⟩ := first
      have second (b : Int) : right ≠ .int b := fun same => other a b (by rw [same])
      change (integerOperand symbol right).Ends state _ _
      refine (ends_integerOperand_other second rfl ?_).mono (fun _ _ no => no.elim) fun _ _ => id
      exact List.mem_cons_of_mem _ List.mem_cons_self
    · have first (a : Int) : left ≠ .int a := fun same => first ⟨a, same⟩
      exact (ends_integerOperand_other first rfl List.mem_cons_self).mono (fun _ _ no => no.elim)
        fun _ _ => id
  all_goals exact ⟨.count (by simp), rfl⟩

theorem div_mem_all (settings : Settings) : .arithmetic "/" .div ∈ all settings := by
  simp [all]

theorem rem_mem_all (modern : settings.legacyModulo = false) :
    .arithmetic "%" .rem ∈ all settings := by
  simp [all, modern]

theorem exists_arithmetic (settings : Settings) (listed : symbol ∈ ["/", "%"]) :
    ∃ operation, .arithmetic symbol operation ∈ all settings := by
  simp only [List.mem_cons, List.not_mem_nil, or_false] at listed
  rcases listed with rfl | rfl
  · exact ⟨.div, div_mem_all settings⟩
  · exact ⟨if settings.legacyModulo then .mul else .rem, by simp [all]⟩

/-- An operation on two integers gives its result, or the reason why there is none. -/
theorem gives_of_apply (grown : (Heap.initial settings).Grows state.heap)
    (listed : .arithmetic symbol operation ∈ all settings) {n : Int}
    (applied : operation.apply a b = .ok n) :
    Gives settings state symbol (.int a) (.int b) n := by
  refine (answers_iff grown listed).mpr ?_
  simp only [run, operands, integerOperand, pure_bind, applied]
  exact ⟨rfl, rfl⟩

theorem failsWith_of_apply (grown : (Heap.initial settings).Grows state.heap)
    (listed : .arithmetic symbol operation ∈ all settings) {cause : Cause}
    (applied : operation.apply a b = .error cause) :
    FailsWith settings state symbol a b cause := by
  refine (answers_iff grown listed).mpr ?_
  simp only [run, operands, integerOperand, pure_bind, applied]
  exact ⟨rfl, rfl⟩

/-- The two operators give what the equation of division determines. -/
theorem gives_of_divides (grown : (Heap.initial settings).Grows state.heap)
    (divides : Divides a b q r) :
    Gives settings state "/" (.int a) (.int b) q ∧
      Modern settings (Gives settings state "%" (.int a) (.int b) r) := by
  have nonzero := divides.ne_zero
  obtain ⟨rfl, rfl⟩ := (divides_tdiv_tmod a nonzero).unique divides
  refine ⟨gives_of_apply grown (div_mem_all settings) ?_, fun modern => ?_⟩
  · exact truncatingDiv_eq nonzero
  · exact gives_of_apply grown (rem_mem_all modern) (truncatingRem_eq nonzero)

/-- In any state after the start, and for integers of any size:
* where the divisor is not zero, `/` and `%` give a quotient and a remainder that satisfy the
  equation of division and are the only numbers to do so, and the quotient is the exact one rounded
  toward zero; with the dividend both change their sign, with the divisor the quotient does and the
  remainder stays;
* where it is zero, both fail;
* other arguments than two integers are refused, before the divisor is looked at. -/
theorem division_fits (grown : (Heap.initial settings).Grows state.heap) :
    (∀ a b : Int, b ≠ 0 → ∃ q r,
      (Gives settings state "/" (.int a) (.int b) q ∧
        Modern settings (Gives settings state "%" (.int a) (.int b) r)) ∧
      Divides a b q r ∧ RoundsToZero a b q ∧
      (∀ q' r', Divides a b q' r' → q' = q ∧ r' = r) ∧
      (Gives settings state "/" (.int (-a)) (.int b) (-q) ∧
        Modern settings (Gives settings state "%" (.int (-a)) (.int b) (-r))) ∧
      (Gives settings state "/" (.int a) (.int (-b)) (-q) ∧
        Modern settings (Gives settings state "%" (.int a) (.int (-b)) r))) ∧
    (∀ a : Int, FailsWith settings state "/" a 0 .divisionByZero ∧
      Modern settings (FailsWith settings state "%" a 0 .remainderByZero)) ∧
    ∀ symbol ∈ ["/", "%"], ∀ arguments, (∀ a b, arguments ≠ [.int a, .int b]) →
      Refuses settings state symbol arguments := by
  refine ⟨fun a b nonzero => ?_, fun a => ⟨?_, fun modern => ?_⟩,
    fun symbol listed arguments other => ?_⟩
  · have divides := divides_tdiv_tmod a nonzero
    exact ⟨_, _, gives_of_divides grown divides, divides, roundsToZero_tdiv a nonzero,
      fun q' r' divides' => divides.unique divides', gives_of_divides grown divides.neg_left,
      gives_of_divides grown divides.neg_right⟩
  · exact failsWith_of_apply grown (div_mem_all settings) rfl
  · exact failsWith_of_apply grown (rem_mem_all modern) rfl
  · obtain ⟨operation, bound⟩ := exists_arithmetic settings listed
    exact (answers_iff grown bound).mpr (ends_unfit arguments other)

/-- A negative dividend that the divisor does not divide, and a divisor of zero beside an operand
that is no integer. -/
theorem division_fits_seven : (Heap.initial .standard).Grows (Script.start .standard .empty).heap ∧
    Gives .standard (Script.start .standard .empty) "/" (.int (-7)) (.int 2) (-3) ∧
    Gives .standard (Script.start .standard .empty) "%" (.int (-7)) (.int 2) (-1) ∧
    Refuses .standard (Script.start .standard .empty) "/" [.str "x", .int 0] := by
  have grown : (Heap.initial .standard).Grows (Script.start .standard .empty).heap := .refl _
  obtain ⟨divided, -, refused⟩ := division_fits grown
  obtain ⟨q, r, ⟨quotient, remainder⟩, -, -, unique, -⟩ := divided (-7) 2 (by decide)
  obtain ⟨rfl, rfl⟩ := unique (-3) (-1) ⟨by decide, by decide, .inr (by decide)⟩
  exact ⟨grown, quotient, remainder rfl, refused "/" (by simp) _ fun a b => by simp⟩

end Builtin

end ScriptTree
