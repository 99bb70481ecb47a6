/-!
Programs as trees. Every construct of the language is an expression; a statement is an expression
that is evaluated for what it does. A program is a single block.

Every node carries the line it came from, when the parser knew it. Lines serve messages only.
-/

namespace ScriptTree

/-- The source line of a node, if the parser knew it. -/
abbrev Line := Option Int

/-- A sequence of expressions that are evaluated in one scope. -/
structure Block (α : Type) where
  line : Line := none
  instrs : List α := []
  deriving DecidableEq, Repr

/-- A constant of a program. -/
inductive Literal where
  | int (value : Int)
  | str (value : String)
  deriving DecidableEq, Repr

/-- An expression. -/
inductive Expr where
  /-- The elements in turn, in the surrounding scope. -/
  | block (body : Block Expr)
  | literal (line : Line) (value : Literal)
  | var (line : Line) (name : String)
  /-- Binds a variable; `declares` tells whether the name may be new. -/
  | assignment (line : Line) (name : String) (value : Expr) (declares : Bool)
  /-- A function; without a name it is anonymous, with one it also binds that name. -/
  | function (line : Line) (name : Option String) (parameters : List String) (body : Block Expr)
  | returns (line : Line) (value : Expr)
  | branch (line : Line) (condition : Expr) (onTrue onFalse : Block Expr)
  /-- A new record; its fields are evaluated in the order in which they stand. -/
  | record (line : Line) (fields : List (String × Expr))
  | field (line : Line) (receiver : Expr) (name : String)
  | fieldAssignment (line : Line) (receiver : Expr) (name : String) (value : Expr)
  /-- Operators are called like functions, under their symbols. -/
  | call (line : Line) (callee : Expr) (arguments : List Expr)
  | methodCall (line : Line) (receiver : Expr) (name : String) (arguments : List Expr)
  /-- A node of a kind that the language does not have. No document describes one. -/
  | unknown (line : Line) (kind : String)

/-- The line of an expression. -/
def Expr.line : Expr → Line
  | .block body => body.line
  | .literal line .. | .var line .. | .assignment line .. | .function line ..
  | .returns line .. | .branch line .. | .record line .. | .field line ..
  | .fieldAssignment line .. | .call line .. | .methodCall line .. | .unknown line .. => line

/-- A program. -/
structure Script where
  body : Block Expr

end ScriptTree
