import Mathlib.Logic.Function.Iterate
import ScriptTree.Run

/-!
# Evaluation step by step

`Eval.evaluator` relates a node to the outcome of its whole evaluation; no statement about it can
name a state in between. This module is evaluation in single steps. A `Moment` is the state of a
run, what is to be done next (`Focus`) and the evaluations that wait for its outcome (`Frame`,
innermost first); `Moment.next` is one step. A step either evaluates no node or begins with one, so
the number of frames is the number of evaluations that are active.

`Script.moment` is a run, moment by moment. `Proofs/Machine/Adequacy.lean` shows that it passes
through the outcomes of `Eval.evaluator` and comes to an end where `Script.run` does.

A node is evaluated as an `Occurrence`: with its place in the tree of the program. Places are not
looked at by any step; they serve to say which part of a program is being evaluated. A closure does
not keep the place of its node, so a moment remembers it for every closure (`Moment.origins`).
-/

namespace ScriptTree

/-! ## Places in a program -/

/-- The way from the root of a program to a node: at each step, which child is next. The last step
comes first. -/
abbrev Place := List Nat

/-- A node where it stands. -/
structure Occurrence where
  place : Place
  node : Expr

namespace Occurrence

/-- A child of a node. -/
def child (code : Occurrence) (position : Nat) (node : Expr) : Occurrence :=
  ⟨position :: code.place, node⟩

/-- Children of a node that stand one after another, from a position on. -/
def children (code : Occurrence) : (position : Nat) → List Expr → List Occurrence
  | _, [] => []
  | position, node :: rest => code.child position node :: code.children (position + 1) rest

/-- Children of a node that stand under names. -/
def named (code : Occurrence) : (position : Nat) → List (String × Expr) → List (String × Occurrence)
  | _, [] => []
  | position, (name, node) :: rest =>
      (name, code.child position node) :: code.named (position + 1) rest

end Occurrence

namespace Expr

/-- The children of a node, in the order in which they stand. The blocks of a branch and the body of
a function are children like all others. -/
def child? : Expr → Nat → Option Expr
  | .block body, i => body.instrs[i]?
  | .assignment _ _ value _, 0 => some value
  | .function _ _ _ body, 0 => some (.block body)
  | .returns _ value, 0 => some value
  | .branch _ condition _ _, 0 => some condition
  | .branch _ _ onTrue _, 1 => some (.block onTrue)
  | .branch _ _ _ onFalse, 2 => some (.block onFalse)
  | .record _ fields, i => fields[i]?.map Prod.snd
  | .field _ receiver _, 0 => some receiver
  | .fieldAssignment _ receiver _ _, 0 => some receiver
  | .fieldAssignment _ _ _ value, 1 => some value
  | .call _ callee _, 0 => some callee
  | .call _ _ arguments, i + 1 => arguments[i]?
  | .methodCall _ receiver _ _, 0 => some receiver
  | .methodCall _ _ _ arguments, i + 1 => arguments[i]?
  | _, _ => none

/-- Whether a node is a function. -/
def isFunction : Expr → Bool
  | .function .. => true
  | _ => false

end Expr

namespace Script

/-- The node at a place of a program. -/
def nodeAt? (script : Script) : Place → Option Expr
  | [] => some (.block script.body)
  | position :: place => (script.nodeAt? place).bind (·.child? position)

/-- How many functions stand around a place of a program. -/
def functionsAround (script : Script) : Place → Nat
  | [] => 0
  | _ :: place =>
      script.functionsAround place + if (script.nodeAt? place).any Expr.isFunction then 1 else 0

end Script

/-! ## Moments -/

/-- Something to do in the state of a run. -/
inductive Task where
  | eval (code : Occurrence) (scope : Ref)
  /-- The rest of a block. -/
  | elements (rest : List Occurrence) (scope : Ref)
  /-- The rest of a record, after the fields that have their values. -/
  | fields (done : List (String × Value)) (rest : List (String × Occurrence)) (scope : Ref)
  /-- The rest of the arguments of a call, after those that have their values. -/
  | arguments (line : Line) (callee : Ref) (receiver : Value) (done : List Value)
      (rest : List Occurrence) (scope : Ref)
  | invoke (callee : Ref) (receiver : Value) (values : List Value)

/-- An evaluation that waits for another one. -/
inductive Frame where
  | element (rest : List Occurrence) (scope : Ref)
  | assignment (line : Line) (name : String) (declares : Bool) (scope : Ref)
  | returns
  | condition (line : Line) (onTrue onFalse : List Occurrence) (scope : Ref)
  | initializer (name : String) (done : List (String × Value))
      (rest : List (String × Occurrence)) (scope : Ref)
  | field (line : Line) (name : String)
  /-- The receiver of a field assignment, before its value. -/
  | target (line : Line) (name : String) (value : Occurrence) (scope : Ref)
  /-- The value of a field assignment, after its receiver. -/
  | write (target : Ref) (name : String)
  | callee (line : Line) (rest : List Occurrence) (scope : Ref)
  | receiver (line : Line) (name : String) (rest : List Occurrence) (scope : Ref)
  | argument (line : Line) (callee : Ref) (receiver : Value) (done : List Value)
      (rest : List Occurrence) (scope : Ref)
  /-- A call, from the moment its function is invoked. -/
  | call (line : Line)

/-- What a run is about. -/
inductive Focus where
  | task (task : Task)
  | answer (completion : Completion Value)
  | raise (fault : Fault)

/-- A moment of a run. -/
structure Moment where
  focus : Focus
  frames : List Frame
  state : State
  /-- The places of the functions that were evaluated to closures. -/
  origins : Ref → Place := fun _ => []

/-- What an action decides on: the next focus, and what waits for it. -/
structure Next where
  focus : Focus
  frames : List Frame := []

namespace Next

/-- A node is evaluated, and a frame waits for it. -/
def eval (frame : Frame) (code : Occurrence) (scope : Ref) : Next :=
  ⟨.task (.eval code scope), [frame]⟩

/-- A task is done for the same node. -/
def go (task : Task) : Next :=
  ⟨.task task, []⟩

/-- The evaluation of a node completes with a value. -/
def value (result : Value) : Next :=
  ⟨.answer (.value result), []⟩

/-- The evaluation of a node completes with a value that leaves the function. -/
def returning (result : Value) : Next :=
  ⟨.answer (.returning result), []⟩

end Next

/-! ## What a step does -/

open Eval

/-- What the evaluation of a node begins with. -/
def Occurrence.begin (code : Occurrence) (scope : Ref) : Action Next :=
  match code.node with
  | .block body => pure (.go (.elements (code.children 0 body.instrs) scope))
  | .literal _ literal => pure (.value literal.toValue)
  | .var _ name => return .value (← .lookup scope name)
  | .assignment line name expr declares =>
      pure (.eval (.assignment line name declares scope) (code.child 0 expr) scope)
  | .function line name parameters body => do
      let lambda := { line, name := name.getD "lambda", parameters, body }
      let ref ← .add (.function lambda.name (.closure lambda scope))
      if let some name := name then
        .register scope name (.obj ref)
      pure (.value (.obj ref))
  | .returns _ expr => pure (.eval .returns (code.child 0 expr) scope)
  | .branch line condition onTrue onFalse =>
      pure (.eval
        (.condition line ((code.child 1 (.block onTrue)).children 0 onTrue.instrs)
          ((code.child 2 (.block onFalse)).children 0 onFalse.instrs) scope)
        (code.child 0 condition) scope)
  | .record _ fields => pure (.go (.fields [] (code.named 0 fields) scope))
  | .field line receiver name => pure (.eval (.field line name) (code.child 0 receiver) scope)
  | .fieldAssignment line receiver name expr =>
      pure (.eval (.target line name (code.child 1 expr) scope) (code.child 0 receiver) scope)
  | .call line callee exprs =>
      pure (.eval (.callee line (code.children 1 exprs) scope) (code.child 0 callee) scope)
  | .methodCall line receiver name exprs =>
      pure (.eval (.receiver line name (code.children 1 exprs) scope) (code.child 0 receiver) scope)
  | .unknown line kind => .fail (.unsupportedKind kind) line

/-- What the invocation of an object begins with, given its body and the place of its node. The
call waits already, so the result of a function that is not one of the program returns to it. -/
def Task.invoked (origin : Place) (callee : Ref) (receiver : Value) (values : List Value) :
    Option Body → Action Next
  | none => notFunction (.obj callee)
  | some (.builtin builtin) => return .returning (← builtin.run values)
  | some (.closure lambda scope) => do
      if values.length = lambda.parameters.length then
        let inner ← .add (.scope (some scope) (callBindings lambda receiver values))
        pure (.go (.eval ⟨0 :: origin, .block lambda.body⟩ inner))
      else
        .fail (.arity lambda.name lambda.parameters.length values.length) lambda.line
  | some (.external call) =>
      match call callee receiver values with
      | .ok result => pure (.returning result)
      | .error failure => throw (.failure failure)

/-- What doing a task begins with, given whether another evaluation is allowed. -/
def Task.begin (settings : Settings) (origins : Ref → Place) (allowed : Bool) : Task → Action Next
  | .eval code scope => if allowed then code.begin scope else throw .tooDeep
  | .elements [] _ => pure (.value .undefined)
  | .elements (code :: rest) scope => pure (.eval (.element rest scope) code scope)
  | .fields done [] _ => return .value (.obj (← .add (.record (.ofList done))))
  | .fields done ((name, code) :: rest) scope =>
      pure (.eval (.initializer name done rest scope) code scope)
  | .arguments line callee receiver done [] _ => do
      if settings.traceCalls then
        .log fun heap =>
          .calling line (((heap.get? callee).map Object.name).getD "")
            (Value.quotedList? heap done)
      pure ⟨.task (.invoke callee receiver done), [.call line]⟩
  | .arguments line callee receiver done (code :: rest) scope =>
      pure (.eval (.argument line callee receiver done rest scope) code scope)
  | .invoke callee receiver values => do
      let body ← .view fun state => (state.heap.get? callee).bind Object.body
      invoked (origins callee) callee receiver values body

/-- What a waiting evaluation does with the value that it waited for. -/
def Frame.resume : Frame → Value → Action Next
  | .element rest scope, _ => pure (.go (.elements rest scope))
  | .assignment line name declares scope, value => do
      if !declares && (← Action.lookup scope name) = .undefined then
        .fail (.unknownVariable name) line
      else
        .register scope name value
        pure (.value .undefined)
  | .returns, value => pure (.returning value)
  | .condition line onTrue onFalse scope, value => do
      let n ← integer line value
      pure (.go (.elements (if n = 0 then onFalse else onTrue) scope))
  | .initializer name done rest scope, value =>
      pure (.go (.fields (done ++ [(name, value)]) rest scope))
  | .field line name, value => do
      let ref ← object line value
      return .value (← .lookup ref name)
  | .target line name code scope, value => do
      let ref ← object line value
      pure (.eval (.write ref name) code scope)
  | .write ref name, value => do
      .register ref name value
      pure (.value .undefined)
  | .callee line rest scope, value => do
      let ref ← function line value
      pure (.go (.arguments line ref .undefined [] rest scope))
  | .receiver line name rest scope, value => do
      let holder ← object line value
      let ref ← function line (← .lookup holder name)
      pure (.go (.arguments line ref (.obj holder) [] rest scope))
  | .argument line ref this done rest scope, value =>
      pure (.go (.arguments line ref this (done ++ [value]) rest scope))
  | .call _, _ => pure (.value .undefined)

namespace Frame

/-- A value that leaves the function passes every waiting evaluation up to the call, whose value it
is. -/
def passed : Frame → Value → Completion Value
  | .call _, result => .value result
  | _, result => .returning result

/-- A fault passes every waiting evaluation. A failure without a line takes that of a call. -/
def failed : Frame → Fault → Fault
  | .call line, .failure failure => .failure (failure.orAt line)
  | _, fault => fault

end Frame

namespace Moment

/-- The moment after an action, which decides on how to go on. -/
def after (moment : Moment) (frames : List Frame) (action : Action Next) : Moment :=
  match action moment.state with
  | .ok next state => { moment with focus := next.focus, frames := next.frames ++ frames, state }
  | .error fault state => { moment with focus := .raise fault, frames, state }

/-- The places of closures, when the node at a place is about to be evaluated: if that adds a
closure, then it is of this node. -/
def noting (moment : Moment) : Task → Moment
  | .eval code _ =>
      { moment with origins := Function.update moment.origins moment.state.heap.size code.place }
  | _ => moment

/-- One step. There is none after the end. -/
def next (settings : Settings) (limit : Nat) (moment : Moment) : Moment :=
  match moment.focus, moment.frames with
  | .task task, frames =>
      (moment.noting task).after frames
        (task.begin settings moment.origins (frames.length < limit))
  | .answer (.value value), frame :: frames => moment.after frames (frame.resume value)
  | .answer (.returning value), frame :: frames =>
      { moment with focus := .answer (frame.passed value), frames }
  | .raise fault, frame :: frames => { moment with focus := .raise (frame.failed fault), frames }
  | .answer _, [] | .raise _, [] => moment

/-- The evaluation of a node has come to its end. -/
def Ended (moment : Moment) : Prop :=
  moment.frames = [] ∧ ∀ task, moment.focus ≠ .task task

/-- The beginning of an evaluation, in which no other one waits. -/
def start (code : Occurrence) (scope : Ref) (state : State) : Moment :=
  { focus := .task (.eval code scope), frames := [], state }

end Moment

/-- The moments of a run of a program, from the first evaluation on. -/
def Script.moment (script : Script) (settings : Settings) (sink : Sink) (log : Log) (n : Nat) :
    Moment :=
  (Moment.next settings settings.depth)^[n]
    (.start ⟨[], .block script.body⟩ Heap.root
      (start settings sink
        { log with records := log.records.push (.started script.body.instrs.length) }))

end ScriptTree
