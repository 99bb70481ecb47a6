/-!
The kinds of nodes, and the tags by which a document tells them apart.
-/

namespace ScriptTree

/-- A kind of node. -/
inductive Kind where
  | block
  | literal
  | var
  | assignment
  | function
  | returns
  | branch
  | record
  | field
  | fieldAssignment
  | call
  | methodCall
  deriving DecidableEq, Repr

namespace Kind

/-- The tag of a kind. -/
def tag : Kind → String
  | .block => "block"
  | .literal => "literal"
  | .var => "local_var_access"
  | .assignment => "local_var_assignment"
  | .function => "fun"
  | .returns => "return"
  | .branch => "if"
  | .record => "new"
  | .field => "field_access"
  | .fieldAssignment => "field_assignment"
  | .call => "fun_call"
  | .methodCall => "method_call"

/-- All kinds. -/
def all : List Kind :=
  [.block, .literal, .var, .assignment, .function, .returns, .branch, .record, .field,
    .fieldAssignment, .call, .methodCall]

/-- The kind that a tag stands for. -/
def ofTag? (tag : String) : Option Kind :=
  all.find? fun kind => kind.tag = tag

/-- Different kinds have different tags. -/
theorem ofTag?_tag (kind : Kind) : ofTag? kind.tag = some kind := by
  cases kind <;> decide

/-- A tag that stands for a kind is its tag. -/
theorem tag_of_ofTag? {tag : String} {kind : Kind} (found : ofTag? tag = some kind) :
    kind.tag = tag := by
  simpa using List.find?_some found

end Kind

end ScriptTree
