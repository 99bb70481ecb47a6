import ScriptTree.Expr
import ScriptTree.Text.Decimal
import ScriptTree.Text.Quoted

/-!
What can go wrong in a run. A `Failure` is an error of the program: a cause and, when it is known,
the line to report. Everything else that ends a run is a `Fault` of its own: it carries no line and
is not an error that the language speaks of.
-/

namespace ScriptTree

/-- What a construct needs of a value. -/
inductive Expected where
  | integer
  | object
  | function
  deriving DecidableEq, Repr

/-- The word for what was needed. -/
def Expected.word : Expected → String
  | .integer => "integer"
  | .object => "object"
  | .function => "function"

/-- Why a program fails. Values are given by the text that shows them. -/
inductive Cause where
  | mismatch (shown : String) (expected : Expected)
  | operandMismatch (shown operator : String)
  | incomparable (left leftKind right rightKind operator : String)
  | operandCount (operator : String) (got : Nat)
  | arity (function : String) (expected got : Nat)
  | unknownVariable (name : String)
  | divisionByZero
  | remainderByZero
  | strayReturn
  | unsupportedKind (kind : String)
  | recursionTooDeep
  /-- Raised by a function that the embedding program supplies, in its own words. -/
  | custom (message : String)
  deriving DecidableEq, Repr

/-- The message of a cause. -/
def Cause.message : Cause → String
  | .mismatch shown expected => "type error " ++ shown ++ " is not a " ++ expected.word
  | .operandMismatch shown operator =>
      "type error " ++ shown ++ " is not a integer (operand of " ++ operator ++ ")"
  | .incomparable left leftKind right rightKind operator =>
      "type error " ++ left ++ " (" ++ leftKind ++ ") and " ++ right ++ " (" ++ rightKind ++
        ") are not comparable (operand of " ++ operator ++ ")"
  | .operandCount operator got =>
      "operator " ++ operator ++ " expects 2 arguments, got " ++ got.repr
  | .arity function expected got =>
      "function " ++ function ++ " expects " ++ expected.repr ++ " argument(s), got " ++ got.repr
  | .unknownVariable name => "unknown variable " ++ Text.quoted name
  | .divisionByZero => "division by zero"
  | .remainderByZero => "remainder by zero"
  | .strayReturn => "return outside of a function"
  | .unsupportedKind kind => "unsupported expression kind: " ++ kind
  | .recursionTooDeep => "maximum recursion depth exceeded"
  | .custom message => message

/-- An error of the program. -/
structure Failure where
  cause : Cause
  line : Line := none
  deriving DecidableEq, Repr

namespace Failure

/-- The failure as it is reported: its line, when known, and the message. -/
def report (failure : Failure) : String :=
  match failure.line with
  | none => failure.cause.message
  | some line => "at line " ++ Decimal.text line ++ ", " ++ failure.cause.message

/-- The failure with a line to fall back on. A line that is known stays. -/
def orAt (failure : Failure) (line : Line) : Failure :=
  { failure with line := failure.line <|> line }

@[simp] theorem cause_orAt (failure : Failure) (line : Line) :
    (failure.orAt line).cause = failure.cause := rfl

@[simp] theorem line_orAt (failure : Failure) (line : Line) :
    (failure.orAt line).line = (failure.line <|> line) := rfl

end Failure

/-- Why a computation ends without a result. -/
inductive Fault where
  | failure (failure : Failure)
  /-- An integer of more than `Decimal.maxDigits` digits would have to be shown. -/
  | digitLimit
  /-- The sink takes no more lines. -/
  | sinkClosed
  /-- Evaluations are nested deeper than the settings allow. -/
  | tooDeep
  deriving DecidableEq, Repr

end ScriptTree
