import ScriptTree.Expr

/-!
Values. Integers and strings are their own values; everything that can change is an object, and a
value only refers to it.
-/

namespace ScriptTree

/-- The place of an object in the heap. -/
abbrev Ref := Nat

/-- A value. Programs compute with the first four kinds; the last two enter from outside only. -/
inductive Value where
  /-- Also the mark of a name that is not bound. -/
  | undefined
  | int (value : Int)
  | str (value : String)
  | obj (ref : Ref)
  | flag (value : Bool)
  | null
  deriving DecidableEq, Repr, Inhabited

/-- The value of a constant. -/
def Literal.toValue : Literal → Value
  | .int value => .int value
  | .str value => .str value

end ScriptTree
