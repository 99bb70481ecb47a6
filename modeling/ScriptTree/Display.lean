import ScriptTree.Heap

/-!
How values are shown. `display?` is the text that `print` writes: an object shows its own fields,
and an object inside a field is named and not opened, so the text is finite on any heap.
`quoted?` is the form of the debug log, where strings stand between quotes.

Both are `none` exactly when they would write an integer that is too long to be shown.
-/

namespace ScriptTree

namespace Object

/-- How a function is shown. -/
def functionText (object : Object) : String :=
  "function " ++ object.name

/-- How an object is shown inside another one. -/
def nestedText (object : Object) : String :=
  if object.isFunction then object.functionText else "[object]"

end Object

namespace Value

/-- The kind of a value, as messages name it. -/
def kind (heap : Heap) : Value → String
  | .undefined => "undefined"
  | .int _ | .flag _ => "integer"
  | .str _ => "string"
  | .obj ref => if heap.isFunction ref then "function" else "object"
  | .null => "NoneType"

/-- The text of a value, given the texts of objects. -/
def textWith? (object? : Ref → Option String) : Value → Option String
  | .undefined => some "undefined"
  | .int n => Decimal.text? n
  | .str s => some s
  | .obj ref => object? ref
  | .flag true => some "True"
  | .flag false => some "False"
  | .null => some "None"

/-- The text of a value inside a record. -/
def nested? (heap : Heap) : Value → Option String :=
  textWith? fun ref => (heap.get? ref).map Object.nestedText

/-- The texts of bindings, each a name and a value. -/
def bindings? (heap : Heap) (fields : Fields Value) : Option (List String) :=
  fields.mapM fun binding => (nested? heap binding.2).map (binding.1 ++ ": " ++ ·)

/-- The text of an object that is shown for itself. -/
def object? (heap : Heap) (object : Object) : Option String :=
  if object.isFunction then some object.functionText
  else
    (bindings? heap object.fields).map fun texts =>
      "\x7b" ++ String.intercalate ", " texts ++ "\x7d"

/-- The text of a value. -/
def display? (heap : Heap) : Value → Option String :=
  textWith? fun ref => (heap.get? ref).bind (object? heap)

/-- The text of a value in the debug log. -/
def quoted? (heap : Heap) : Value → Option String
  | .str s => some (Text.quoted s)
  | value => display? heap value

/-- The text of a list of values in the debug log. -/
def quotedList? (heap : Heap) (values : List Value) : Option String :=
  (values.mapM (quoted? heap)).map fun texts => "[" ++ String.intercalate ", " texts ++ "]"

end Value

end ScriptTree
