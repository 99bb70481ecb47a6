import ScriptTree.Failure
import ScriptTree.Fields
import ScriptTree.Value

/-!
Objects. Records, functions and scopes are all objects: fields, a parent to fall back on when a
name is looked up (scopes only), and what invoking the object does (functions only). Functions hold
fields like any other object.

A function is one of the language itself, one of the program together with the scope in which it
was evaluated, or one that the embedding program supplies.
-/

namespace ScriptTree

/-- The operations on two integers. -/
inductive Arithmetic where
  | add
  | sub
  | div
  | mul
  | rem
  deriving DecidableEq, Repr

/-- The ways to order two values. -/
inductive Comparison where
  | lt
  | le
  | gt
  | ge
  deriving DecidableEq, Repr

/-- A function of the language itself. An operator knows the symbol under which it reports. -/
inductive Builtin where
  | print
  | arithmetic (symbol : String) (operation : Arithmetic)
  | equality (symbol : String) (negated : Bool)
  | ordering (symbol : String) (comparison : Comparison)
  deriving DecidableEq, Repr

/-- What a function of a program needs when it is invoked. -/
structure Lambda where
  line : Line
  name : String
  parameters : List String
  body : Block Expr

/-- What invoking an object does. -/
inductive Body where
  | builtin (builtin : Builtin)
  /-- Runs a function of the program in a child of the scope in which it was evaluated. -/
  | closure (lambda : Lambda) (scope : Ref)
  /-- Calls out to the embedding program, with the function itself, the receiver and the
  arguments. -/
  | external (call : Ref → Value → List Value → Except Failure Value)

/-- An object of the heap. -/
structure Object where
  name : String
  parent : Option Ref := none
  body : Option Body := none
  fields : Fields Value := []

namespace Object

/-- A scope: the variables of one call, and the scope around them. -/
def scope (parent : Option Ref) (fields : Fields Value) : Object :=
  { name := "env", parent, fields }

/-- A record. -/
def record (fields : Fields Value) : Object :=
  { name := "object", fields }

/-- A function. -/
def function (name : String) (body : Body) : Object :=
  { name, body := some body }

/-- Whether the object can be invoked. -/
def isFunction (object : Object) : Bool :=
  object.body.isSome

end Object

end ScriptTree
