import ScriptTree.Eval

/-!
Running a program. A run starts on the initial objects, writes to a sink and to a log that the
caller hands in and ends with a report: how it ended, and the state that it left. A run that is not
admitted starts nothing.
-/

namespace ScriptTree

/-- What a caller hands in to be written to. -/
inductive Target where
  | sink (sink : Sink)
  /-- Something of another type, which takes no lines. -/
  | other (type : String)

/-- Why a run is not admitted. -/
inductive Refusal where
  | notASink (type : String)
  | limitTooLarge
  deriving DecidableEq, Repr

/-- How a run ended, and the state it left. -/
structure Report where
  ending : Except Fault Unit
  state : State

/-- The fault that a run reports: nesting too deep is a failure of the program, and has no line
whatever calls were active. -/
def Fault.reported : Fault → Fault
  | .tooDeep => .failure ⟨.recursionTooDeep, none⟩
  | fault => fault

namespace Script

/-- The state in which a program starts. -/
def start (settings : Settings) (sink : Sink) (log : Log := {}) : State :=
  { heap := .initial settings, sink, log }

/-- Evaluates a program in the root scope, between the first and the last record of the log. The
last is written only when the program comes to its end. -/
def execute (script : Script) (settings : Settings) : Action Unit := do
  .log fun _ => .started script.body.instrs.length
  let _ ← evaluate settings (.block script.body) Heap.root
  .log fun _ => .finished

/-- Runs a program, if the run is admitted. -/
def run (script : Script) (target : Target) (settings : Settings := .standard)
    (log : Log := {}) : Except Refusal Report :=
  match target with
  | .other type => .error (.notASink type)
  | .sink sink =>
      if settings.effectiveLimit ≤ Settings.greatestLimit then
        match script.execute settings (start settings sink log) with
        | .ok _ state => .ok ⟨.ok (), state⟩
        | .error fault state => .ok ⟨.error fault.reported, state⟩
      else .error .limitTooLarge

end Script

end ScriptTree
