/-!
Checking a document. A check either accepts, with what was read, or refuses, with every issue it
found and the place of each. Checks of the parts of a document are put together by `<*>`, which
reads on after an issue, so a document is accepted exactly when none of its parts has one
(`seq_accepted_iff`), and the issues come in the order of the parts.
-/

namespace ScriptTree

/-- What is wrong at a place of a document. -/
inductive IssueKind where
  /-- The text is no document. -/
  | jsonInvalid
  | missing
  | modelType
  | dictType
  | listType
  | stringType
  | unionTagNotFound
  | unionTagInvalid
  | literalError
  | boolType
  | boolParsing
  | intType
  | intParsing
  | intParsingSize
  | intFromFloat
  | finiteNumber
  | greaterThan
  deriving DecidableEq, Repr

/-- The word for what is wrong. -/
def IssueKind.word : IssueKind → String
  | .jsonInvalid => "json_invalid"
  | .missing => "missing"
  | .modelType => "model_type"
  | .dictType => "dict_type"
  | .listType => "list_type"
  | .stringType => "string_type"
  | .unionTagNotFound => "union_tag_not_found"
  | .unionTagInvalid => "union_tag_invalid"
  | .literalError => "literal_error"
  | .boolType => "bool_type"
  | .boolParsing => "bool_parsing"
  | .intType => "int_type"
  | .intParsing => "int_parsing"
  | .intParsingSize => "int_parsing_size"
  | .intFromFloat => "int_from_float"
  | .finiteNumber => "finite_number"
  | .greaterThan => "greater_than"

/-- One step from a document into it. -/
inductive Step where
  | key (name : String)
  | index (position : Nat)
  deriving DecidableEq, Repr

/-- Something wrong, and the way to its place. -/
structure Issue where
  kind : IssueKind
  place : List Step := []
  deriving DecidableEq, Repr

/-- The same issue, seen from a step further out. -/
def Issue.under (step : Step) (issue : Issue) : Issue :=
  { issue with place := step :: issue.place }

/-- The outcome of a check. -/
inductive Checked (α : Type) where
  | accepted (result : α)
  | refused (issues : List Issue)
  deriving Repr

namespace Checked

variable {α β : Type}

/-- A check that finds one issue at its place. -/
def issue (kind : IssueKind) : Checked α :=
  .refused [{ kind }]

/-- The issues that a check has found. -/
def issues : Checked α → List Issue
  | .accepted _ => []
  | .refused issues => issues

/-- The check seen from a step further out. -/
def under (step : Step) : Checked α → Checked α
  | .accepted result => .accepted result
  | .refused issues => .refused (issues.map (Issue.under step))

/-- One check after another, which is made whatever the first has found. -/
def seq (function : Checked (α → β)) (argument : Checked α) : Checked β :=
  match function, argument with
  | .accepted f, .accepted a => .accepted (f a)
  | .accepted _, .refused issues => .refused issues
  | .refused issues, .accepted _ => .refused issues
  | .refused issues, .refused more => .refused (issues ++ more)

instance : Applicative Checked where
  pure := .accepted
  seq function argument := seq function (argument ())

/-- A further condition on what was read. -/
def filter (holds : α → Bool) (kind : IssueKind) : Checked α → Checked α
  | .accepted result => if holds result then .accepted result else issue kind
  | .refused issues => .refused issues

/-! ## The parts of a check -/

@[simp] theorem pure_eq (a : α) : (pure a : Checked α) = .accepted a := rfl

theorem seq_eq (function : Checked (α → β)) (argument : Checked α) :
    function <*> argument = seq function argument := rfl

@[simp] theorem map_accepted (f : α → β) (a : α) :
    f <$> (Checked.accepted a) = .accepted (f a) := rfl

@[simp] theorem map_refused (f : α → β) (issues : List Issue) :
    f <$> (Checked.refused issues : Checked α) = .refused issues := rfl

@[simp] theorem seq_accepted (f : α → β) (a : α) :
    (Checked.accepted f <*> Checked.accepted a) = .accepted (f a) := rfl

/-- What is made of a check is accepted exactly when the check accepts. -/
theorem map_accepted_iff (f : α → β) (checked : Checked α) (b : β) :
    f <$> checked = .accepted b ↔ ∃ a, checked = .accepted a ∧ f a = b := by
  cases checked <;> simp

/-- Two checks accept exactly when both do. -/
theorem seq_accepted_iff (function : Checked (α → β)) (argument : Checked α) (b : β) :
    (function <*> argument) = .accepted b ↔
      ∃ f a, function = .accepted f ∧ argument = .accepted a ∧ f a = b := by
  cases function <;> cases argument <;> simp [seq_eq, seq]

/-- The issues of two checks are those of the first and then those of the second. -/
theorem issues_seq (function : Checked (α → β)) (argument : Checked α) :
    (function <*> argument).issues = function.issues ++ argument.issues := by
  cases function <;> cases argument <;> simp [seq_eq, seq, issues]

@[simp] theorem under_accepted (step : Step) (a : α) :
    under step (.accepted a) = .accepted a := rfl

@[simp] theorem under_eq_accepted (step : Step) (checked : Checked α) (a : α) :
    checked.under step = .accepted a ↔ checked = .accepted a := by
  cases checked <;> simp [under]

theorem issues_under (step : Step) (checked : Checked α) :
    (checked.under step).issues = checked.issues.map (Issue.under step) := by
  cases checked <;> rfl

end Checked

end ScriptTree
