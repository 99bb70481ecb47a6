import ScriptTree.Expr
import ScriptTree.Json.Reader
import ScriptTree.Lax
import ScriptTree.Script.Kind

/-!
From documents to programs. A node is an object whose members are looked up by name, so neither
their order nor members of other names matter, and of two members of one name the last counts. The
fields of a record are no such members: each of them is checked, in the order in which they stand,
and only then does a later one replace an earlier one of its name. Where an expression may stand,
the member `kind` tells which node it is, and its tag becomes a step on the way to the issues
inside. Where only a block may stand, the tag may be left out and is no such step.

The fields of a node are checked in a fixed order, and every issue is reported.
-/

namespace ScriptTree

/-! ## Members -/

namespace Member

/-- What a check says of a member, if the member is there. -/
def check? {α : Type} (name : String) (check : Json → Checked α) (members : List (String × Json)) :
    Option (Checked α) :=
  (Json.find? members name).map fun json => (check json).under (.key name)

/-- A member that has to be there. -/
def required {α : Type} (name : String) (found : Option (Checked α)) : Checked α :=
  found.getD ((Checked.issue .missing).under (.key name))

/-- A member that may be left out. -/
def optional {α : Type} (default : α) (found : Option (Checked α)) : Checked α :=
  found.getD (.accepted default)

end Member

/-! ## Scalars -/

namespace Decode

/-- A text, strictly. -/
def string : Json → Checked String
  | .string value => .accepted value
  | _ => .issue .stringType

/-- A text that may be null. -/
def stringOrNull : Json → Checked (Option String)
  | .null => .accepted none
  | json => some <$> string json

/-- A source line; null stands for one that is not known. -/
def line : Json → Checked Line
  | .null => .accepted none
  | json => some <$> LaxInt.ofJson json

/-- A constant, strictly: what is neither an integer nor a text fails to be the one and fails to
be the other. -/
def literal : Json → Checked Literal
  | .int value => .accepted (.int value)
  | .string value => .accepted (.str value)
  | _ => .refused [⟨.intType, [.key "int"]⟩, ⟨.stringType, [.key "str"]⟩]

/-- The elements of a list of texts from a position on. -/
def stringsFrom : (position : Nat) → List Json → Checked (List String)
  | _, [] => .accepted []
  | position, json :: rest =>
      List.cons <$> (string json).under (.index position) <*> stringsFrom (position + 1) rest

/-- A list of texts. -/
def strings : Json → Checked (List String)
  | .array items => stringsFrom 0 items
  | _ => .issue .listType

/-- The tag of a node that has to be a block. -/
def blockKind : Json → Checked Unit
  | .string tag => if tag = Kind.block.tag then .accepted () else .issue .literalError
  | _ => .issue .literalError

/-- The member that holds the line of a node. -/
def lineMember (members : List (String × Json)) : Checked Line :=
  Member.optional none (Member.check? "line_number" line members)

/-- The member that holds a name. -/
def nameMember (members : List (String × Json)) : Checked String :=
  Member.required "name" (Member.check? "name" string members)

/-! ## One node

What is checked of a node, given what the checks of its members say. -/

/-- The members of an object, by name, each read as what it is asked for. -/
structure Members where
  expr? : String → Option (Checked Expr)
  block? : String → Option (Checked (Block Expr))
  exprs? : String → Option (Checked (List Expr))
  named? : String → Option (Checked (List (String × Expr)))

/-- A block, given the check of its elements. -/
def blockWith (members : List (String × Json)) (instrs? : Option (Checked (List Expr))) :
    Checked (Block Expr) :=
  (fun line _ instrs => { line, instrs }) <$> lineMember members
    <*> Member.optional () (Member.check? "kind" blockKind members)
    <*> Member.optional [] instrs?

/-- A node of a known kind. Its members are checked in the order in which they stand here. -/
def nodeWith (kind : Kind) (members : List (String × Json)) (inner : Members) : Checked Expr :=
  match kind with
  | .block => .block <$> blockWith members (inner.exprs? "instrs")
  | .literal =>
      .literal <$> lineMember members
        <*> Member.required "value" (Member.check? "value" literal members)
  | .var => .var <$> lineMember members <*> nameMember members
  | .assignment =>
      .assignment <$> lineMember members <*> nameMember members
        <*> Member.required "expr" (inner.expr? "expr")
        <*> Member.optional false (Member.check? "declaration" LaxBool.ofJson members)
  | .function =>
      .function <$> lineMember members
        <*> Member.optional none (Member.check? "name" stringOrNull members)
        <*> Member.optional [] (Member.check? "parameters" strings members)
        <*> Member.required "body" (inner.block? "body")
  | .returns => .returns <$> lineMember members <*> Member.required "expr" (inner.expr? "expr")
  | .branch =>
      .branch <$> lineMember members
        <*> Member.required "condition" (inner.expr? "condition")
        <*> Member.required "true_block" (inner.block? "true_block")
        <*> Member.optional {} (inner.block? "false_block")
  | .record => .record <$> lineMember members <*> Member.optional [] (inner.named? "init_map")
  | .field =>
      .field <$> lineMember members
        <*> Member.required "receiver" (inner.expr? "receiver")
        <*> nameMember members
  | .fieldAssignment =>
      .fieldAssignment <$> lineMember members
        <*> Member.required "receiver" (inner.expr? "receiver")
        <*> nameMember members
        <*> Member.required "expr" (inner.expr? "expr")
  | .call =>
      .call <$> lineMember members
        <*> Member.required "qualifier" (inner.expr? "qualifier")
        <*> Member.optional [] (inner.exprs? "args")
  | .methodCall =>
      .methodCall <$> lineMember members
        <*> Member.required "receiver" (inner.expr? "receiver")
        <*> nameMember members
        <*> Member.optional [] (inner.exprs? "args")

/-- An expression, told by its tag. -/
def exprWith (members : List (String × Json)) (inner : Members) : Checked Expr :=
  match Json.find? members "kind" with
  | none => .issue .unionTagNotFound
  | some (.string tag) =>
      match Kind.ofTag? tag with
      | some kind => (nodeWith kind members inner).under (.key tag)
      | none => .issue .unionTagInvalid
  | some _ => .issue .unionTagInvalid

/-! ## Nodes inside nodes -/

mutual

/-- An expression. -/
def expr : Json → Checked Expr
  | .object members =>
      exprWith members
        { expr? := fun name => exprMember? name members
          block? := fun name => blockMember? name members
          exprs? := fun name => exprsMember? name members
          named? := fun name => namedMember? name members }
  | _ => .issue .dictType

/-- A block, where nothing else may stand. -/
def block : Json → Checked (Block Expr)
  | .object members => blockWith members (exprsMember? "instrs" members)
  | _ => .issue .modelType

/-- The elements of a list of expressions from a position on. -/
def exprsFrom : (position : Nat) → List Json → Checked (List Expr)
  | _, [] => .accepted []
  | position, json :: rest =>
      List.cons <$> (expr json).under (.index position) <*> exprsFrom (position + 1) rest

/-- A list of expressions. -/
def exprs : Json → Checked (List Expr)
  | .array items => exprsFrom 0 items
  | _ => .issue .listType

/-- Named expressions, every one of them, in the order in which they stand. -/
def namedFrom : List (String × Json) → Checked (List (String × Expr))
  | [] => .accepted []
  | (name, json) :: rest =>
      (fun expr others => (name, expr) :: others) <$> (expr json).under (.key name)
        <*> namedFrom rest

/-- An object of named expressions. A name that stands again keeps its place and takes the last of
its expressions. -/
def named : Json → Checked (List (String × Expr))
  | .object members => Fields.ofList <$> namedFrom members
  | _ => .issue .dictType

/-- The expression in a member. -/
def exprMember? (name : String) : List (String × Json) → Option (Checked Expr)
  | [] => none
  | (key, json) :: rest =>
      match exprMember? name rest with
      | some found => some found
      | none => if key = name then some ((expr json).under (.key name)) else none

/-- The block in a member. -/
def blockMember? (name : String) : List (String × Json) → Option (Checked (Block Expr))
  | [] => none
  | (key, json) :: rest =>
      match blockMember? name rest with
      | some found => some found
      | none => if key = name then some ((block json).under (.key name)) else none

/-- The list of expressions in a member. -/
def exprsMember? (name : String) : List (String × Json) → Option (Checked (List Expr))
  | [] => none
  | (key, json) :: rest =>
      match exprsMember? name rest with
      | some found => some found
      | none => if key = name then some ((exprs json).under (.key name)) else none

/-- The named expressions in a member. -/
def namedMember? (name : String) : List (String × Json) → Option (Checked (List (String × Expr)))
  | [] => none
  | (key, json) :: rest =>
      match namedMember? name rest with
      | some found => some found
      | none => if key = name then some ((named json).under (.key name)) else none

end

/-! Looking a member up and checking it is one thing with checking it where it stands. -/

theorem exprMember?_eq (name : String) (members : List (String × Json)) :
    exprMember? name members = Member.check? name expr members := by
  induction members with
  | nil => rfl
  | cons member rest ih =>
      rw [exprMember?, ih, Member.check?, Member.check?, Json.find?]
      cases Json.find? rest name <;> by_cases same : member.1 = name <;> simp [same]

theorem blockMember?_eq (name : String) (members : List (String × Json)) :
    blockMember? name members = Member.check? name block members := by
  induction members with
  | nil => rfl
  | cons member rest ih =>
      rw [blockMember?, ih, Member.check?, Member.check?, Json.find?]
      cases Json.find? rest name <;> by_cases same : member.1 = name <;> simp [same]

theorem exprsMember?_eq (name : String) (members : List (String × Json)) :
    exprsMember? name members = Member.check? name exprs members := by
  induction members with
  | nil => rfl
  | cons member rest ih =>
      rw [exprsMember?, ih, Member.check?, Member.check?, Json.find?]
      cases Json.find? rest name <;> by_cases same : member.1 = name <;> simp [same]

theorem namedMember?_eq (name : String) (members : List (String × Json)) :
    namedMember? name members = Member.check? name named members := by
  induction members with
  | nil => rfl
  | cons member rest ih =>
      rw [namedMember?, ih, Member.check?, Member.check?, Json.find?]
      cases Json.find? rest name <;> by_cases same : member.1 = name <;> simp [same]

end Decode

/-! ## Programs -/

namespace Script

/-- The program that a document describes. -/
def ofJson : Json → Checked Script
  | .object members =>
      Script.mk <$> Member.required "body" (Decode.blockMember? "body" members)
  | _ => .issue .modelType

/-- The program that a text describes. -/
def ofText (text : String) : Checked Script :=
  match Json.read? .standard text.toList with
  | some json => ofJson json
  | none => .issue .jsonInvalid

/-- The program that the bytes of a text describe. They have to be valid UTF-8. -/
def ofBytes (bytes : ByteArray) : Checked Script :=
  match String.fromUTF8? bytes with
  | some text => ofText text
  | none => .issue .jsonInvalid

end Script

end ScriptTree
