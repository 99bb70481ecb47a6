import ScriptTree.Display

/-!
The debug log. A record tells where it was written, and keeps the texts of values as they were at
that moment. Arguments that cannot be shown leave a record without a message.

A lenient log takes such a record nevertheless, so that logging never disturbs a run
(`write?_of_lenient`). A strict one writes every message as it comes, and takes no record that has
none.
-/

namespace ScriptTree

/-- One record of the debug log. -/
inductive LogRecord where
  /-- A run begins on a program with so many expressions at its top level. -/
  | started (expressions : Nat)
  /-- A run has come to its end without an error. -/
  | finished
  /-- `print` is about to write its arguments. -/
  | printing (arguments : Option String)
  /-- A call of a program is about to invoke a function. -/
  | calling (line : Line) (function : String) (arguments : Option String)
  deriving DecidableEq, Repr

namespace LogRecord

/-- The message of a record, if its arguments could be shown. -/
def message? : LogRecord → Option String
  | .started expressions =>
      some ("running script with " ++ expressions.repr ++ " top-level expressions")
  | .finished => some "script finished"
  | .printing arguments => arguments.map ("print called with " ++ ·)
  | .calling line function arguments =>
      arguments.map fun shown =>
        "line " ++ line.elim "None" Decimal.text ++ ": calling " ++ function ++ " with " ++ shown

end LogRecord

/-- A debug log. -/
structure Log where
  /-- Whether every record needs a message. -/
  strict : Bool := false
  records : Array LogRecord := #[]
  deriving Repr

namespace Log

/-- A log after one more record, or `none` if it does not take the record. -/
def write? (log : Log) (record : LogRecord) : Option Log :=
  if log.strict && record.message?.isNone then none
  else some { log with records := log.records.push record }

/-- A lenient log takes every record. -/
theorem write?_of_lenient {log : Log} (lenient : log.strict = false) (record : LogRecord) :
    log.write? record = some { log with records := log.records.push record } := by
  simp [write?, lenient]

/-- A log takes every record that has a message. -/
theorem write?_of_message {log : Log} {record : LogRecord}
    (message : record.message?.isSome = true) :
    log.write? record = some { log with records := log.records.push record } := by
  cases shown : record.message? <;> simp_all [write?]

end Log

end ScriptTree
