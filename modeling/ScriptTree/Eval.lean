import ScriptTree.Builtin

/-!
Evaluation. `Eval.rules` says what each kind of node does, given an evaluator for the nodes inside
it; `Eval.evaluator` ties the knot, with a bound on how many evaluations may be nested. Programs
may loop, so the bound is what makes evaluation a function; its exhaustion is a fault of its own.

A `return` is not an exception. Evaluating a node completes either with a value or with a value on
its way out of the function (`Completion`), each rule hands the latter on as it came, and only a
call takes it for its result.
-/

namespace ScriptTree

/-- How an evaluation completes. -/
inductive Completion (α : Type) where
  | value (result : α)
  /-- A `return` was evaluated: the value leaves the function. -/
  | returning (result : Value)
  deriving Repr

/-- Continues with the value of a completion. One that is returning is handed on. -/
def Completion.andThen {α β : Type} (completion : Completion α)
    (next : α → Action (Completion β)) : Action (Completion β) :=
  match completion with
  | .value result => next result
  | .returning result => pure (.returning result)

/-- An evaluator: what a node does in a scope. -/
abbrev Evaluator := Expr → Ref → Action (Completion Value)

namespace Eval

/-! ## Values that a node needs -/

/-- An integer, as the condition of a branch has to be. -/
def integer (line : Line) : Value → Action Int
  | .int n => pure n
  | value => do
      let text ← .shown fun heap => value.display? heap
      .fail (.mismatch text .integer) line

/-- An object, as a receiver has to be. -/
def object (line : Line) : Value → Action Ref
  | .obj ref => pure ref
  | value => do
      let text ← .shown fun heap => value.display? heap
      .fail (.mismatch text .object) line

/-- A value that is not a function stands where one is invoked. -/
def notFunction {α : Type} (value : Value) (line : Line := none) : Action α := do
  let text ← .shown fun heap => value.display? heap
  .fail (.mismatch text .function) line

/-- A function, as a callee has to be. -/
def function (line : Line) : Value → Action Ref
  | .obj ref => do
      if ← .view fun state => state.heap.isFunction ref then pure ref
      else notFunction (.obj ref) line
  | value => notFunction value line

/-! ## Sequences -/

/-- The elements of a block, up to the first that is returning. The block itself has no value. -/
def sequence (self : Evaluator) (scope : Ref) : List Expr → Action (Completion Value)
  | [] => pure (.value .undefined)
  | expr :: rest => do
      match ← self expr scope with
      | .value _ => sequence self scope rest
      | .returning result => pure (.returning result)

/-- The values of arguments, from left to right. -/
def arguments (self : Evaluator) (scope : Ref) : List Expr → Action (Completion (List Value))
  | [] => pure (.value [])
  | expr :: rest => do
      (← self expr scope).andThen fun first => do
        (← arguments self scope rest).andThen fun others =>
          pure (.value (first :: others))

/-- The values of the fields of a new record, in the order in which they stand. -/
def fieldValues (self : Evaluator) (scope : Ref) :
    List (String × Expr) → Action (Completion (List (String × Value)))
  | [] => pure (.value [])
  | (name, expr) :: rest => do
      (← self expr scope).andThen fun first => do
        (← fieldValues self scope rest).andThen fun others =>
          pure (.value ((name, first) :: others))

/-! ## Calls -/

/-- What the scope of a call binds at its start: the receiver as `this`, then the parameters. -/
def callBindings (lambda : Lambda) (receiver : Value) (values : List Value) : Fields Value :=
  .ofList (("this", receiver) :: lambda.parameters.zip values)

/-- The scope of a call begins with `this` and the other parameters, each at its first place. -/
theorem keys_callBindings (lambda : Lambda) (receiver : Value) {values : List Value}
    (fits : values.length = lambda.parameters.length) :
    (callBindings lambda receiver values).keys =
      "this" :: (lambda.parameters.filter (· != "this")).eraseDups := by
  have names : (lambda.parameters.zip values).map Prod.fst = lambda.parameters :=
    List.map_fst_zip (Nat.le_of_eq fits.symm)
  rw [callBindings, Fields.keys_ofList, List.map_cons, names, List.eraseDups_cons]
  rfl

/-- A parameter that is repeated is listed once. -/
example : (callBindings ⟨none, "f", ["x", "this", "y", "x"], {}⟩ .undefined
    [.int 1, .int 2, .int 3, .int 4]).keys = ["this", "x", "y"] := by
  decide

/-- Runs a function of the program in a new child of its scope. A function whose body ends without
a `return` gives undefined. -/
def enter (self : Evaluator) (lambda : Lambda) (scope : Ref) (receiver : Value)
    (values : List Value) : Action Value := do
  if values.length = lambda.parameters.length then
    let inner ← .add (.scope (some scope) (callBindings lambda receiver values))
    match ← self (.block lambda.body) inner with
    | .value _ => pure .undefined
    | .returning result => pure result
  else
    .fail (.arity lambda.name lambda.parameters.length values.length) lambda.line

/-- Invokes an object. Only functions can be invoked. -/
def invoke (self : Evaluator) (ref : Ref) (receiver : Value) (values : List Value) :
    Action Value := do
  match ← .view fun state => (state.heap.get? ref).bind Object.body with
  | none => notFunction (.obj ref)
  | some (.builtin builtin) => builtin.run values
  | some (.closure lambda scope) => enter self lambda scope receiver values
  | some (.external call) =>
      match call ref receiver values with
      | .ok result => pure result
      | .error failure => throw (.failure failure)

/-- A call of the program. A function that fails without knowing where fails at the call. -/
def call (settings : Settings) (self : Evaluator) (line : Line) (ref : Ref) (receiver : Value)
    (values : List Value) : Action Value := do
  if settings.traceCalls then
    .log fun heap =>
      .calling line (((heap.get? ref).map Object.name).getD "") (Value.quotedList? heap values)
  .orAt line (invoke self ref receiver values)

/-! ## The rules -/

/-- What a node does, given an evaluator for the nodes inside it. -/
def rules (settings : Settings) (self : Evaluator) : Evaluator
  | .block body, scope => sequence self scope body.instrs
  | .literal _ literal, _ => pure (.value literal.toValue)
  | .var _ name, scope => return .value (← .lookup scope name)
  | .assignment line name expr declares, scope => do
      (← self expr scope).andThen fun value => do
        if !declares && (← Action.lookup scope name) = .undefined then
          .fail (.unknownVariable name) line
        else
          .register scope name value
          pure (.value .undefined)
  | .function line name parameters body, scope => do
      let lambda := { line, name := name.getD "lambda", parameters, body }
      let ref ← .add (.function lambda.name (.closure lambda scope))
      if let some name := name then
        .register scope name (.obj ref)
      pure (.value (.obj ref))
  | .returns _ expr, scope => do
      (← self expr scope).andThen fun value => pure (.returning value)
  | .branch line condition onTrue onFalse, scope => do
      (← self condition scope).andThen fun value => do
        let n ← integer line value
        sequence self scope (if n = 0 then onFalse else onTrue).instrs
  | .record _ fields, scope => do
      (← fieldValues self scope fields).andThen fun bindings => do
        let ref ← .add (.record (.ofList bindings))
        pure (.value (.obj ref))
  | .field line receiver name, scope => do
      (← self receiver scope).andThen fun value => do
        let ref ← object line value
        return .value (← .lookup ref name)
  | .fieldAssignment line receiver name expr, scope => do
      (← self receiver scope).andThen fun target => do
        let ref ← object line target
        (← self expr scope).andThen fun value => do
          .register ref name value
          pure (.value .undefined)
  | .call line callee exprs, scope => do
      (← self callee scope).andThen fun value => do
        let ref ← function line value
        (← arguments self scope exprs).andThen fun values =>
          return .value (← call settings self line ref .undefined values)
  | .methodCall line receiver name exprs, scope => do
      (← self receiver scope).andThen fun value => do
        let target ← object line value
        let ref ← function line (← .lookup target name)
        (← arguments self scope exprs).andThen fun values =>
          return .value (← call settings self line ref (.obj target) values)
  | .unknown line kind, _ => .fail (.unsupportedKind kind) line

/-! ## Nested evaluations -/

/-- The evaluator with at most `depth` evaluations active at one time. -/
def evaluator (settings : Settings) : (depth : Nat) → Evaluator
  | 0, _, _ => throw .tooDeep
  | depth + 1, expr, scope => rules settings (evaluator settings depth) expr scope

/-- An evaluation follows the rule for its node, with one fewer evaluation allowed inside. -/
theorem evaluator_succ (settings : Settings) (depth : Nat) :
    evaluator settings (depth + 1) = rules settings (evaluator settings depth) := rfl

end Eval

/-- Evaluates a node outside of any function, where a `return` is an error. -/
def evaluate (settings : Settings) (expr : Expr) (scope : Ref) : Action Value := do
  match ← Eval.evaluator settings settings.depth expr scope with
  | .value result => pure result
  | .returning _ => .fail .strayReturn expr.line

/-- Invokes an object from outside a program, where no call is logged and no line is known. -/
def invoke (settings : Settings) (ref : Ref) (receiver : Value) (values : List Value) :
    Action Value :=
  Eval.invoke (Eval.evaluator settings settings.depth) ref receiver values

end ScriptTree
