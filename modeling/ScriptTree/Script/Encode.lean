import ScriptTree.Expr
import ScriptTree.Json.Printer
import ScriptTree.Script.Kind

/-!
From programs to documents. The document of a program is canonical: every node writes all of its
fields, also those that may be left out, in one fixed order, and its line and its tag come first.
-/

namespace ScriptTree

namespace Encode

/-- A source line; null stands for one that is not known. -/
def line : Line → Json
  | none => .null
  | some n => .int n

/-- A constant. -/
def literal : Literal → Json
  | .int n => .int n
  | .str s => .string s

/-- The name of a function; null stands for an anonymous one. -/
def name : Option String → Json
  | none => .null
  | some name => .string name

/-- The members that every node begins with, and those of its own. -/
def node (source : Line) (tag : String) (members : List (String × Json)) : Json :=
  .object (("line_number", line source) :: ("kind", .string tag) :: members)

mutual

/-- The document of an expression. -/
def expr : Expr → Json
  | .block body => block body
  | .literal line value => node line Kind.literal.tag [("value", literal value)]
  | .var line name => node line Kind.var.tag [("name", .string name)]
  | .assignment line name value declares =>
      node line Kind.assignment.tag
        [("name", .string name), ("expr", expr value), ("declaration", .bool declares)]
  | .function line functionName parameters body =>
      node line Kind.function.tag
        [("name", name functionName), ("parameters", .array (parameters.map .string)),
          ("body", block body)]
  | .returns line value => node line Kind.returns.tag [("expr", expr value)]
  | .branch line condition onTrue onFalse =>
      node line Kind.branch.tag
        [("condition", expr condition), ("true_block", block onTrue),
          ("false_block", block onFalse)]
  | .record line fields => node line Kind.record.tag [("init_map", .object (named fields))]
  | .field line receiver name =>
      node line Kind.field.tag [("receiver", expr receiver), ("name", .string name)]
  | .fieldAssignment line receiver name value =>
      node line Kind.fieldAssignment.tag
        [("receiver", expr receiver), ("name", .string name), ("expr", expr value)]
  | .call line callee arguments =>
      node line Kind.call.tag [("qualifier", expr callee), ("args", .array (exprs arguments))]
  | .methodCall line receiver name arguments =>
      node line Kind.methodCall.tag
        [("receiver", expr receiver), ("name", .string name), ("args", .array (exprs arguments))]
  | .unknown line kind => node line kind []

/-- The document of a block. -/
def block : Block Expr → Json
  | ⟨line, instrs⟩ => node line Kind.block.tag [("instrs", .array (exprs instrs))]

/-- The documents of expressions. -/
def exprs : List Expr → List Json
  | [] => []
  | first :: rest => expr first :: exprs rest

/-- The documents of named expressions. -/
def named : List (String × Expr) → List (String × Json)
  | [] => []
  | (name, first) :: rest => (name, expr first) :: named rest

end

end Encode

namespace Script

/-- The document of a program. -/
def toJson (script : Script) : Json :=
  .object [("body", Encode.block script.body)]

/-- The canonical text of a program. -/
def toText (script : Script) : String :=
  script.toJson.render

end Script

end ScriptTree
