import ScriptTree.Proofs.Machine.Adequacy
import ScriptTree.Proofs.Machine.Moves

/-!
# Returns as signals

`Eval.evaluator` hands the value of a `return` from rule to rule until a call takes it. This module
is the evaluation in which a `return` leaves at once: it raises a signal (`Signal.returning`), no
rule looks at how a part of its node completes, and only two places catch the signal, the call of a
function of the program (`Signals.enter`) and the evaluation outside of any function
(`Signals.evaluate`). The two are the same (`Signals.signalled_evaluator`): they end with the same
value, the same value of a `return` or the same fault, and leave the same state.

Between a `return` and its call nothing is done at all (`Moment.iterate_returning`).
-/

namespace ScriptTree

/-- What ends an evaluation that has no value. -/
inductive Signal where
  | fault (fault : Fault)
  | returning (result : Value)

/-- The signal, with a line for a failure that knows none. -/
def Signal.orAt (line : Line) : Signal → Signal
  | .fault (.failure failure) => .fault (.failure (failure.orAt line))
  | signal => signal

/-- A computation on the state that may end in a signal. -/
abbrev Signalling (α : Type) := EStateM Signal State α

namespace Signals

/-! ## Evaluation with signals -/

/-- An action, whose faults are signals. -/
def lift {α : Type} (action : Action α) : Signalling α :=
  action.adaptExcept .fault

/-- The elements of a block. The block itself has no value. -/
def sequence (self : Expr → Ref → Signalling Value) (scope : Ref) : List Expr → Signalling Value
  | [] => pure .undefined
  | expr :: rest => do
      let _ ← self expr scope
      sequence self scope rest

/-- The values of arguments, from left to right. -/
def arguments (self : Expr → Ref → Signalling Value) (scope : Ref) (exprs : List Expr) :
    Signalling (List Value) :=
  exprs.mapM fun expr => self expr scope

/-- The values of the fields of a new record, in the order in which they stand. -/
def fieldValues (self : Expr → Ref → Signalling Value) (scope : Ref)
    (fields : List (String × Expr)) : Signalling (List (String × Value)) :=
  fields.mapM fun field => return (field.1, ← self field.2 scope)

/-- Runs a function of the program in a new child of its scope, and catches the signal of a `return`
there. -/
def enter (self : Expr → Ref → Signalling Value) (lambda : Lambda) (scope : Ref) (receiver : Value)
    (values : List Value) : Signalling Value := do
  if values.length = lambda.parameters.length then
    let inner ← lift (.add (.scope (some scope) (Eval.callBindings lambda receiver values)))
    try
      let _ ← self (.block lambda.body) inner
      pure .undefined
    catch
      | .returning result => pure result
      | .fault fault => throw (.fault fault)
  else
    lift (.fail (.arity lambda.name lambda.parameters.length values.length) lambda.line)

/-- Invokes an object. -/
def invoke (self : Expr → Ref → Signalling Value) (ref : Ref) (receiver : Value)
    (values : List Value) : Signalling Value := do
  match ← lift (.view fun state => (state.heap.get? ref).bind Object.body) with
  | none => lift (Eval.notFunction (.obj ref))
  | some (.builtin builtin) => lift (builtin.run values)
  | some (.closure lambda scope) => enter self lambda scope receiver values
  | some (.external call) =>
      match call ref receiver values with
      | .ok result => pure result
      | .error failure => throw (.fault (.failure failure))

/-- A call of the program. A failure without a line takes that of the call. -/
def call (settings : Settings) (self : Expr → Ref → Signalling Value) (line : Line) (ref : Ref)
    (receiver : Value) (values : List Value) : Signalling Value := do
  if settings.traceCalls then
    lift (.log fun heap =>
      .calling line (((heap.get? ref).map Object.name).getD "") (Value.quotedList? heap values))
  (invoke self ref receiver values).adaptExcept (.orAt line)

/-- What a node does. A `return` raises a signal; no other rule knows of signals. -/
def rules (settings : Settings) (self : Expr → Ref → Signalling Value) :
    Expr → Ref → Signalling Value
  | .block body, scope => sequence self scope body.instrs
  | .literal _ literal, _ => pure literal.toValue
  | .var _ name, scope => lift (.lookup scope name)
  | .assignment line name expr declares, scope => do
      let value ← self expr scope
      if !declares && (← lift (.lookup scope name)) = .undefined then
        lift (.fail (.unknownVariable name) line)
      else
        lift (.register scope name value)
        pure .undefined
  | .function line name parameters body, scope => do
      let lambda := { line, name := name.getD "lambda", parameters, body }
      let ref ← lift (.add (.function lambda.name (.closure lambda scope)))
      if let some name := name then
        lift (.register scope name (.obj ref))
      pure (.obj ref)
  | .returns _ expr, scope => do throw (.returning (← self expr scope))
  | .branch line condition onTrue onFalse, scope => do
      let n ← lift (Eval.integer line (← self condition scope))
      sequence self scope (if n = 0 then onFalse else onTrue).instrs
  | .record _ fields, scope => do
      let bindings ← fieldValues self scope fields
      return .obj (← lift (.add (.record (.ofList bindings))))
  | .field line receiver name, scope => do
      let ref ← lift (Eval.object line (← self receiver scope))
      lift (.lookup ref name)
  | .fieldAssignment line receiver name expr, scope => do
      let ref ← lift (Eval.object line (← self receiver scope))
      let value ← self expr scope
      lift (.register ref name value)
      pure .undefined
  | .call line callee exprs, scope => do
      let ref ← lift (Eval.function line (← self callee scope))
      let values ← arguments self scope exprs
      call settings self line ref .undefined values
  | .methodCall line receiver name exprs, scope => do
      let target ← lift (Eval.object line (← self receiver scope))
      let ref ← lift (Eval.function line (← lift (.lookup target name)))
      let values ← arguments self scope exprs
      call settings self line ref (.obj target) values
  | .unknown line kind, _ => lift (.fail (.unsupportedKind kind) line)

/-- The evaluator with at most `depth` evaluations active at one time. -/
def evaluator (settings : Settings) : (depth : Nat) → Expr → Ref → Signalling Value
  | 0, _, _ => throw (.fault .tooDeep)
  | depth + 1, expr, scope => rules settings (evaluator settings depth) expr scope

/-- Evaluates a node outside of any function, where the signal of a `return` is an error. -/
def evaluate (settings : Settings) (expr : Expr) (scope : Ref) : Action Value := fun state =>
  match evaluator settings settings.depth expr scope state with
  | .ok result after => .ok result after
  | .error (.returning _) after => .error (.failure ⟨.strayReturn, expr.line⟩) after
  | .error (.fault fault) after => .error fault after

/-! ## From completions to signals -/

/-- A completion, with a signal for a value that leaves the function. -/
def raise {α : Type} : Completion α → Signalling α
  | .value result => pure result
  | .returning result => throw (.returning result)

/-- An action that completes, with a signal for a value that leaves the function. -/
def signalled {α : Type} (action : Action (Completion α)) : Signalling α :=
  lift action >>= raise

section Lift

variable {α β : Type}

theorem lift_apply (action : Action α) (state : State) :
    lift action state = match action state with
      | .ok result after => .ok result after
      | .error fault after => .error (.fault fault) after := by
  rw [lift, EStateM.adaptExcept]
  cases action state <;> rfl

theorem bind_apply (first : Signalling β) (next : β → Signalling α) (state : State) :
    (first >>= next) state = match first state with
      | .ok b after => next b after
      | .error signal after => .error signal after := by
  change EStateM.bind first next state = _
  unfold EStateM.bind
  cases first state <;> rfl

theorem tryCatch_apply (body : Signalling α) (handler : Signal → Signalling α) (state : State) :
    tryCatch body handler state = match body state with
      | .ok a after => .ok a after
      | .error signal after => handler signal after := by
  change EStateM.tryCatch body handler state = _
  unfold EStateM.tryCatch
  cases body state <;> rfl

theorem lift_bind (first : Action β) (next : β → Action α) :
    lift (first >>= next) = lift first >>= fun b => lift (next b) := by
  funext state
  rw [lift_apply, Action.bind_apply, bind_apply, lift_apply]
  cases first state with
  | ok b after => exact (lift_apply (next b) after).symm
  | error fault after => rfl

theorem lift_map (f : β → α) (action : Action β) : lift (f <$> action) = f <$> lift action := by
  funext state
  rw [lift_apply, Action.map_apply, map_eq_pure_bind, bind_apply, lift_apply]
  cases action state <;> rfl

theorem lift_ite (condition : Prop) [Decidable condition] (yes no : Action α) :
    lift (if condition then yes else no) = if condition then lift yes else lift no := by
  split <;> rfl

/-- A part that has a value, and then the rest. -/
theorem signalled_bind (part : Action β) {rest : β → Action (Completion α)}
    {rest' : β → Signalling α} (same : ∀ b, signalled (rest b) = rest' b) :
    signalled (part >>= rest) = lift part >>= rest' := by
  unfold signalled at same ⊢
  rw [lift_bind, bind_assoc]
  exact congrArg _ (funext same)

/-- What follows on a value follows when there is no signal. -/
theorem signalled_andThen {first : Action (Completion β)} {first' : Signalling β}
    {rest : β → Action (Completion α)} {rest' : β → Signalling α}
    (begins : signalled first = first') (same : ∀ b, signalled (rest b) = rest' b) :
    signalled (first >>= fun completion => completion.andThen rest) = first' >>= rest' := by
  have parts : signalled (first >>= fun completion => completion.andThen rest) =
      lift first >>= fun completion => raise completion >>= rest' := by
    refine signalled_bind first fun completion => ?_
    cases completion with
    | value b => exact (same b).trans (pure_bind b rest').symm
    | returning result => rfl
  rw [parts, ← begins, signalled, bind_assoc]

theorem signalled_map_value (action : Action α) :
    signalled (Completion.value <$> action) = lift action := by
  rw [signalled, lift_map, map_eq_pure_bind, bind_assoc]
  exact bind_pure (lift action)

theorem signalled_ite (condition : Prop) [Decidable condition] (yes no : Action (Completion α)) :
    signalled (if condition then yes else no) =
      if condition then signalled yes else signalled no := by
  split <;> rfl

end Lift

/-! ## The same evaluation -/

/-- An evaluator, with signals for values that leave their functions. -/
def signalling (self : Evaluator) : Expr → Ref → Signalling Value := fun expr scope =>
  signalled (self expr scope)

variable (self : Evaluator) (scope : Ref)

theorem signalled_sequence (exprs : List Expr) :
    signalled (Eval.sequence self scope exprs) = sequence (signalling self) scope exprs := by
  induction exprs with
  | nil => rfl
  | cons expr rest ih =>
      rw [Eval.sequence_cons]
      exact signalled_andThen rfl fun _ => ih

theorem signalled_arguments (exprs : List Expr) :
    signalled (Eval.arguments self scope exprs) = arguments (signalling self) scope exprs := by
  induction exprs with
  | nil => rfl
  | cons expr rest ih =>
      rw [Eval.arguments, arguments, List.mapM_cons]
      exact signalled_andThen rfl fun first => signalled_andThen ih fun others => rfl

theorem signalled_fieldValues (fields : List (String × Expr)) :
    signalled (Eval.fieldValues self scope fields) =
      fieldValues (signalling self) scope fields := by
  induction fields with
  | nil => rfl
  | cons field rest ih =>
      obtain ⟨name, expr⟩ := field
      rw [Eval.fieldValues, fieldValues, List.mapM_cons, bind_assoc]
      exact signalled_andThen rfl fun first => signalled_andThen ih fun others => rfl

/-- The call of a function of the program catches the value that leaves it. -/
theorem lift_enter (lambda : Lambda) (receiver : Value) (values : List Value) :
    lift (Eval.enter self lambda scope receiver values) =
      enter (signalling self) lambda scope receiver values := by
  rw [Eval.enter, enter, lift_ite]
  split
  · rw [lift_bind]
    congr 1
    funext inner state
    simp only [lift_apply, Action.bind_apply, tryCatch_apply, bind_apply, signalling, signalled]
    cases self (.block lambda.body) inner state with
    | ok completion after => cases completion <;> rfl
    | error fault after => rfl
  · rfl

theorem lift_invoke (ref : Ref) (receiver : Value) (values : List Value) :
    lift (Eval.invoke self ref receiver values) =
      invoke (signalling self) ref receiver values := by
  rw [Eval.invoke, invoke, lift_bind]
  congr 1
  funext body
  cases body with
  | none => rfl
  | some body =>
      cases body with
      | builtin builtin => rfl
      | closure lambda scope => exact lift_enter self scope lambda receiver values
      | external call =>
          dsimp only
          cases call ref receiver values <;> rfl

theorem lift_call (settings : Settings) (line : Line) (ref : Ref) (receiver : Value)
    (values : List Value) :
    lift (Eval.call settings self line ref receiver values) =
      call settings (signalling self) line ref receiver values := by
  have called : lift (Action.orAt line (Eval.invoke self ref receiver values)) =
      (invoke (signalling self) ref receiver values).adaptExcept (.orAt line) := by
    funext state
    rw [lift_apply, EStateM.adaptExcept, Action.orAt, ← lift_invoke, lift_apply]
    cases Eval.invoke self ref receiver values state with
    | ok result after => rfl
    | error fault after => cases fault <;> rfl
  rw [Eval.call, call, ← called]
  split
  · exact lift_bind _ _
  · rfl

/-- A node does the same, when the nodes inside do. -/
theorem signalled_rules (settings : Settings) (node : Expr) :
    signalled (Eval.rules settings self node scope) =
      rules settings (signalling self) node scope := by
  cases node with
  | block body => exact signalled_sequence self scope body.instrs
  | literal line literal => rfl
  | var line name => exact signalled_map_value (.lookup scope name)
  | assignment line name expr declares =>
      exact signalled_andThen rfl fun value => signalled_bind _ fun bound => signalled_ite _ _ _
  | function line name parameters body =>
      refine signalled_bind _ fun ref => ?_
      cases name <;> rfl
  | returns line expr => exact signalled_andThen rfl fun result => rfl
  | branch line condition onTrue onFalse =>
      exact signalled_andThen rfl fun value => signalled_bind _ fun n =>
        signalled_sequence self scope _
  | record line fields =>
      exact signalled_andThen (signalled_fieldValues self scope fields) fun bindings => rfl
  | field line receiver name =>
      exact signalled_andThen rfl fun value => signalled_bind _ fun ref =>
        signalled_map_value (.lookup ref name)
  | fieldAssignment line receiver name expr =>
      exact signalled_andThen rfl fun target => signalled_bind _ fun ref =>
        signalled_andThen rfl fun value => rfl
  | call line callee exprs =>
      refine signalled_andThen rfl fun value => signalled_bind _ fun ref => ?_
      refine signalled_andThen (signalled_arguments self scope exprs) fun values => ?_
      rw [← lift_call]
      exact signalled_map_value _
  | methodCall line receiver name exprs =>
      refine signalled_andThen rfl fun value => signalled_bind _ fun target => ?_
      refine signalled_bind _ fun found => signalled_bind _ fun ref => ?_
      refine signalled_andThen (signalled_arguments self scope exprs) fun values => ?_
      rw [← lift_call]
      exact signalled_map_value _
  | unknown line kind => rfl

/-- The evaluation that hands returns on is the one that raises signals for them. -/
theorem signalled_evaluator (settings : Settings) (depth : Nat) (expr : Expr) :
    signalled (Eval.evaluator settings depth expr scope) =
      evaluator settings depth expr scope := by
  induction depth generalizing expr scope with
  | zero => rfl
  | succ depth ih =>
      have inside : signalling (Eval.evaluator settings depth) = evaluator settings depth := by
        funext expr scope
        exact ih scope expr
      rw [Eval.evaluator_succ, signalled_rules, inside]
      rfl

/-- Outside of any function the two are the same also in what they make of a `return`. -/
theorem evaluate_eq (settings : Settings) (expr : Expr) (scope : Ref) :
    ScriptTree.evaluate settings expr scope = evaluate settings expr scope := by
  funext state
  rw [ScriptTree.evaluate, evaluate, ← signalled_evaluator, Action.bind_apply, signalled,
    bind_apply, lift_apply]
  cases Eval.evaluator settings settings.depth expr scope state with
  | ok completion after => cases completion <;> rfl
  | error fault after => rfl

/-- Completing with a value, with the value of a `return` or in a fault is ending with a value, with
the signal of the `return` or with the signal of the fault. -/
theorem evaluator_apply (settings : Settings) (depth : Nat) (expr : Expr) (scope : Ref)
    (state : State) :
    evaluator settings depth expr scope state =
      match Eval.evaluator settings depth expr scope state with
      | .ok (.value result) after => .ok result after
      | .ok (.returning result) after => .error (.returning result) after
      | .error fault after => .error (.fault fault) after := by
  rw [← signalled_evaluator, signalled, bind_apply, lift_apply]
  cases Eval.evaluator settings depth expr scope state with
  | ok completion after => cases completion <;> rfl
  | error fault after => rfl

end Signals

/-! ## Nothing between a return and its call -/

namespace Moment

variable {settings : Settings} {limit : Nat}

/-- A value that leaves a function passes the evaluations that wait in it, and nothing else
happens. -/
theorem iterate_returning (result : Value) (rest : List Frame) (state : State)
    (origins : Ref → Place) (upper : List Frame)
    (inside : ∀ frame ∈ upper, ∀ line, frame ≠ .call line) :
    ∀ k ≤ upper.length, (next settings limit)^[k]
        ⟨.answer (.returning result), upper ++ rest, state, origins⟩ =
      ⟨.answer (.returning result), (upper ++ rest).drop k, state, origins⟩ := by
  induction upper with
  | nil =>
      intro k none
      obtain rfl := Nat.le_zero.mp none
      rfl
  | cons frame upper ih =>
      intro k within
      cases k with
      | zero => rfl
      | succ k =>
          have passed : frame.passed result = .returning result := by
            cases frame with
            | call line => exact absurd rfl (inside _ List.mem_cons_self line)
            | _ => rfl
          rw [Function.iterate_succ_apply]
          change (next settings limit)^[k]
            ⟨.answer (frame.passed result), upper ++ rest, state, origins⟩ = _
          rw [passed]
          exact ih (fun frame waits => inside frame (List.mem_cons_of_mem _ waits)) k
            (Nat.le_of_succ_le_succ within)

end Moment

namespace Script

variable {script : Script} {settings : Settings} {sink : Sink} {log : Log} {n : Nat}
  {result : Value} {upper rest : List Frame}

/-- From the moment on at which a value leaves a function, each step takes one waiting evaluation
off and does nothing else. -/
theorem moment_add_of_returning
    (leaves : (script.moment settings sink log n).focus = .answer (.returning result))
    (waits : (script.moment settings sink log n).frames = upper ++ rest)
    (inside : ∀ frame ∈ upper, ∀ line, frame ≠ .call line) {k : Nat} (within : k ≤ upper.length) :
    script.moment settings sink log (n + k) =
      { script.moment settings sink log n with frames := (upper ++ rest).drop k } := by
  rw [moment_add]
  generalize script.moment settings sink log n = moment at leaves waits
  obtain ⟨focus, frames, state, origins⟩ := moment
  cases leaves
  cases waits
  exact Moment.iterate_returning result rest state origins upper inside k within

/-- The innermost call takes the value that leaves its function. -/
theorem moment_add_of_called {line : Line} {frames : List Frame}
    (leaves : (script.moment settings sink log n).focus = .answer (.returning result))
    (waits : (script.moment settings sink log n).frames = upper ++ .call line :: frames)
    (inside : ∀ frame ∈ upper, ∀ line, frame ≠ .call line) :
    script.moment settings sink log (n + upper.length + 1) =
      { script.moment settings sink log n with focus := .answer (.value result), frames } := by
  rw [moment_succ, moment_add_of_returning leaves waits inside (Nat.le_refl _), List.drop_left]
  generalize script.moment settings sink log n = moment at leaves
  obtain ⟨focus, frames, state, origins⟩ := moment
  cases leaves
  rfl

end Script

/-- Values that are handed on leave as signals do: an evaluation completes with a value, with the
value of a `return` or in a fault exactly when the one with signals ends so, and in the same state.
In a run, from the moment on at which a value leaves a function, each step takes one waiting
evaluation off and does nothing else, up to the innermost call, whose value it is. -/
theorem Signals.returns_leave_at_once :
    (∀ settings depth expr scope state,
      (∀ result after,
        Eval.evaluator settings depth expr scope state = .ok (.value result) after ↔
          evaluator settings depth expr scope state = .ok result after) ∧
      (∀ result after,
        Eval.evaluator settings depth expr scope state = .ok (.returning result) after ↔
          evaluator settings depth expr scope state = .error (.returning result) after) ∧
      (∀ fault after,
        Eval.evaluator settings depth expr scope state = .error fault after ↔
          evaluator settings depth expr scope state = .error (.fault fault) after) ∧
      ScriptTree.evaluate settings expr scope state = evaluate settings expr scope state) ∧
    ∀ (script : Script) settings sink log n result upper rest,
      (script.moment settings sink log n).focus = .answer (.returning result) →
      (script.moment settings sink log n).frames = upper ++ rest →
      (∀ frame ∈ upper, ∀ line, frame ≠ .call line) →
        (∀ k ≤ upper.length, script.moment settings sink log (n + k) =
          { script.moment settings sink log n with frames := (upper ++ rest).drop k }) ∧
        ∀ line frames, rest = .call line :: frames →
          script.moment settings sink log (n + upper.length + 1) =
            { script.moment settings sink log n with
              focus := .answer (.value result)
              frames } := by
  refine ⟨fun settings depth expr scope state => ⟨fun result after => ?_, fun result after => ?_,
    fun fault after => ?_, congrFun (evaluate_eq settings expr scope) state⟩, ?_⟩
  iterate 3
    · rw [evaluator_apply]
      cases Eval.evaluator settings depth expr scope state with
      | ok completion after => cases completion <;> simp
      | error fault after => simp
  · intro script settings sink log n result upper rest leaves waits inside
    refine ⟨fun k within => Script.moment_add_of_returning leaves waits inside within,
      fun line frames called => ?_⟩
    subst called
    exact Script.moment_add_of_called leaves waits inside

end ScriptTree
