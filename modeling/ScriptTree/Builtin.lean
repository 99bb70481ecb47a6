import ScriptTree.Action
import ScriptTree.Settings

/-!
The functions of the language itself: `print` and the operators, which take two operands each.
Their failures carry no line, since a function does not know where it is called.

Integers are unbounded. Division rounds toward zero and the remainder takes the sign of the
dividend. Two values are equal when they are of one kind and the same number, the same string or
the same object. Integers are ordered by size and strings by code points; nothing else is ordered.
-/

namespace ScriptTree

/-! ## Operations on operands -/

/-- Division rounding toward zero: the size of the quotient is that of the sizes, and it is negative
where the signs of the operands differ. -/
def truncatingDiv (a b : Int) : Except Cause Int :=
  if b = 0 then .error .divisionByZero
  else
    let quotient : Int := (a.natAbs / b.natAbs : Nat)
    .ok (if a < 0 ↔ b < 0 then quotient else -quotient)

/-- What `truncatingDiv` leaves of the dividend. -/
def truncatingRem (a b : Int) : Except Cause Int :=
  if b = 0 then .error .remainderByZero
  else do
    let quotient ← truncatingDiv a b
    return a - b * quotient

/-- Both sides are chosen by the signs of the operands. -/
theorem tdiv_eq_ite (a b : Int) : a.tdiv b =
    if a < 0 ↔ b < 0 then ((a.natAbs / b.natAbs : Nat) : Int)
    else -(a.natAbs / b.natAbs : Nat) := by
  have above (n : Nat) : ¬ (n : Int) < 0 := by omega
  rcases a with m | m <;> rcases b with n | n
  · rw [if_pos (by simp [above])]
    rfl
  · rw [if_neg (by simp [Int.negSucc_lt_zero])]
    rfl
  · rw [if_neg (by simp [Int.negSucc_lt_zero])]
    rfl
  · rw [if_pos (by simp [Int.negSucc_lt_zero])]
    rfl

theorem truncatingDiv_eq {a b : Int} (nonzero : b ≠ 0) : truncatingDiv a b = .ok (a.tdiv b) := by
  rw [truncatingDiv, if_neg nonzero, tdiv_eq_ite]

theorem truncatingRem_eq {a b : Int} (nonzero : b ≠ 0) : truncatingRem a b = .ok (a.tmod b) := by
  rw [truncatingRem, if_neg nonzero, truncatingDiv_eq nonzero, Int.tmod_def]
  rfl

/-- The result of an operation, or why there is none. -/
def Arithmetic.apply : Arithmetic → Int → Int → Except Cause Int
  | .add, a, b => .ok (a + b)
  | .sub, a, b => .ok (a - b)
  | .mul, a, b => .ok (a * b)
  | .div, a, b => truncatingDiv a b
  | .rem, a, b => truncatingRem a b

/-- An operation has no result only where it would divide by zero. -/
theorem Arithmetic.cause_of_apply {operation : Arithmetic} {a b : Int} {cause : Cause}
    (applied : operation.apply a b = .error cause) :
    cause = .divisionByZero ∨ cause = .remainderByZero := by
  rcases Decidable.em (b = 0) with rfl | nonzero
  · cases operation <;> cases applied
    · exact .inl rfl
    · exact .inr rfl
  · cases operation with
    | add | sub | mul => cases applied
    | div =>
        rw [apply, truncatingDiv_eq nonzero] at applied
        cases applied
    | rem =>
        rw [apply, truncatingRem_eq nonzero] at applied
        cases applied

/-- Whether two values stand in an order. -/
def Comparison.holds {α : Type} [LT α] [DecidableLT α] : Comparison → α → α → Bool
  | .lt, a, b => a < b
  | .le, a, b => ¬ b < a
  | .gt, a, b => b < a
  | .ge, a, b => ¬ a < b

namespace Value

/-- A truth value as an integer. -/
def ofBool (b : Bool) : Value :=
  .int (if b then 1 else 0)

/-- The number that an ordering takes a value for. A flag counts as zero or one. -/
def number? : Value → Option Int
  | .int n => some n
  | .flag b => some (if b then 1 else 0)
  | _ => none

/-- Whether two values stand in an order; `none` if they have none. -/
def compare? (comparison : Comparison) (left right : Value) : Option Bool :=
  match left.number?, right.number? with
  | some a, some b => some (comparison.holds a b)
  | _, _ =>
      match left, right with
      | .str a, .str b => some (comparison.holds a b)
      | _, _ => none

end Value

/-! ## Running a function -/

namespace Builtin

/-- The name under which a function is bound and shown. -/
def name : Builtin → String
  | .print => "print"
  | .arithmetic symbol _ | .equality symbol _ | .ordering symbol _ => symbol

/-- The two operands of an operator. -/
def operands (symbol : String) : List Value → Action (Value × Value)
  | [left, right] => pure (left, right)
  | arguments => .fail (.operandCount symbol arguments.length)

/-- An operand that has to be an integer. -/
def integerOperand (symbol : String) : Value → Action Int
  | .int n => pure n
  | value => do
      let text ← .shown fun heap => value.display? heap
      .fail (.operandMismatch text symbol)

/-- What a function does with its arguments. -/
def run : Builtin → List Value → Action Value
  | .print, arguments => do
      .log fun heap => .printing (Value.quotedList? heap arguments)
      let line ← .shown fun heap =>
        (arguments.mapM (Value.display? heap)).map (String.intercalate " ")
      .writeLine line
      pure .undefined
  | .arithmetic symbol operation, arguments => do
      let (left, right) ← operands symbol arguments
      let a ← integerOperand symbol left
      let b ← integerOperand symbol right
      match operation.apply a b with
      | .ok n => pure (.int n)
      | .error cause => .fail cause
  | .equality symbol negated, arguments => do
      let (left, right) ← operands symbol arguments
      pure (.ofBool ((left = right) != negated))
  | .ordering symbol comparison, arguments => do
      let (left, right) ← operands symbol arguments
      match left.compare? comparison right with
      | some holds => pure (.ofBool holds)
      | none => do
          let leftText ← .shown fun heap => left.display? heap
          let rightText ← .shown fun heap => right.display? heap
          let (leftKind, rightKind) ← .view fun state =>
            (left.kind state.heap, right.kind state.heap)
          .fail (.incomparable leftText leftKind rightText rightKind symbol)

/-! ## The root scope -/

/-- The functions that a program finds, in the order in which they are bound. -/
def all (settings : Settings) : List Builtin :=
  [.print, .arithmetic "+" .add, .arithmetic "-" .sub, .arithmetic "/" .div, .arithmetic "*" .mul,
    .arithmetic "%" (if settings.legacyModulo then .mul else .rem),
    .equality "==" false, .equality "!=" true,
    .ordering "<" .lt, .ordering "<=" .le, .ordering ">" .gt, .ordering ">=" .ge]

end Builtin

namespace Heap

/-- The reference of the root scope. -/
def root : Ref := 0

/-- The objects that every run starts with: the root scope, which binds itself as `global`, and
the functions of the language, each bound there under its name. -/
def initial (settings : Settings) : Heap :=
  let builtins := Builtin.all settings
  let bindings := builtins.mapIdx fun i builtin => (builtin.name, Value.obj (root + 1 + i))
  let functions := builtins.map fun builtin => Object.function builtin.name (.builtin builtin)
  ⟨(Object.scope none (("global", .obj root) :: bindings) :: functions).toArray⟩

end Heap

end ScriptTree
