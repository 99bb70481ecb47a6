/-!
Sinks for printed lines. A sink takes one line at a time and keeps what it was given; a program
cannot tell one kind from another, except that a bounded sink fails when it is full.
-/

namespace ScriptTree

/-- Where printed lines go. -/
inductive Sink where
  /-- Keeps each line. -/
  | lines (written : Array String)
  /-- Keeps one text, in which each line ends with a line feed. -/
  | stream (text : String)
  /-- Keeps lines, and closes once it holds `capacity` of them. -/
  | bounded (capacity : Nat) (written : Array String)
  deriving Repr

namespace Sink

/-- A sink after one more line, or `none` if it takes no more. -/
def write? : Sink → String → Option Sink
  | .lines written, line => some (.lines (written.push line))
  | .stream text, line => some (.stream (text ++ line ++ "\n"))
  | .bounded capacity written, line =>
      if capacity ≤ written.size then none else some (.bounded capacity (written.push line))

/-- An empty sink that keeps lines. -/
def empty : Sink :=
  .lines #[]

end Sink

end ScriptTree
