import ScriptTree.Log
import ScriptTree.Sink

/-!
Actions: computations on the state of a run. A state holds the objects, the sink and the debug log.
An action ends with a result or with a fault, and either way with a state: what was done before a
fault stays done.
-/

namespace ScriptTree

/-- All that a run can change. -/
structure State where
  heap : Heap := {}
  sink : Sink := .empty
  log : Log := {}

/-- A computation on the state that may end in a fault. -/
abbrev Action (α : Type) := EStateM Fault State α

namespace Action

/-- A view of the current state. -/
def view {α : Type} (look : State → α) : Action α := fun state =>
  .ok (look state) state

/-- The program fails. -/
def fail {α : Type} (cause : Cause) (line : Line := none) : Action α :=
  throw (.failure ⟨cause, line⟩)

/-- The text of values, or a fault if it would hold an integer that is too long to be shown. -/
def shown (text? : Heap → Option String) : Action String := fun state =>
  match text? state.heap with
  | some text => .ok text state
  | none => .error .digitLimit state

/-- Adds an object and gives its reference. -/
def add (object : Object) : Action Ref := fun state =>
  .ok state.heap.size { state with heap := state.heap.add object }

/-- Binds a name in one object. -/
def register (ref : Ref) (key : String) (value : Value) : Action Unit :=
  modify fun state => { state with heap := state.heap.register ref key value }

/-- The value of a name as seen from an object. -/
def lookup (ref : Ref) (key : String) : Action Value :=
  view fun state => state.heap.lookup ref key

/-- Gives the log a record, made from the objects as they are. The only record that a log refuses is
one with arguments that cannot be shown. -/
def log (record : Heap → LogRecord) : Action Unit := fun state =>
  match state.log.write? (record state.heap) with
  | some log => .ok () { state with log }
  | none => .error .digitLimit state

/-- Gives a line to the sink. -/
def writeLine (line : String) : Action Unit := fun state =>
  match state.sink.write? line with
  | some sink => .ok () { state with sink }
  | none => .error .sinkClosed state

/-- The action, with a line for the failures that know none. -/
def orAt {α : Type} (line : Line) (action : Action α) : Action α := fun state =>
  match action state with
  | .ok a after => .ok a after
  | .error (.failure failure) after => .error (.failure (failure.orAt line)) after
  | .error fault after => .error fault after

end Action

end ScriptTree
