import Mathlib.Data.List.Nodup
import ScriptTree.Proofs.Script.RoundTrip

/-!
# The declared fields of a document

Every place of a document is asked for something (`Slot`), and an object in its place is read field
by field: which fields, and with which defaults, is its shape (`Slot.shape?`). A shape is read from
the object as a script, from the object as a block, or told by the tag of an expression.

An object that has a shape is checked by reading the declared fields in their order and by nothing
else (`Slot.check_object`). So its issues are those of its fields, one field after the other
(`Shape.issues_build`), and what is not a field does not matter (`Shape.build_congr`).
-/

namespace ScriptTree

/-! ## Further out -/

/-- The same issue, seen from the beginning of a path. -/
def Issue.within (path : List Step) (issue : Issue) : Issue :=
  { issue with place := path ++ issue.place }

@[simp] theorem Issue.within_nil : Issue.within [] = id := rfl

theorem Issue.within_append (path path' : List Step) :
    Issue.within (path ++ path') = Issue.within path ∘ Issue.within path' := by
  funext issue
  simp [within]

/-- The check seen from the beginning of a path. -/
def Checked.within {α : Type} (path : List Step) (checked : Checked α) : Checked α :=
  path.foldr Checked.under checked

namespace Checked

variable {α β : Type}

theorem issues_within (path : List Step) (checked : Checked α) :
    (checked.within path).issues = checked.issues.map (Issue.within path) := by
  induction path with
  | nil => simp [within]
  | cons step path ih =>
      have outer : checked.within (step :: path) = (checked.within path).under step := rfl
      rw [outer, issues_under, ih, List.map_map]
      rfl

theorem within_eq_accepted (path : List Step) (checked : Checked α) (a : α) :
    checked.within path = .accepted a ↔ checked = .accepted a := by
  induction path with
  | nil => rfl
  | cons step path ih => exact (under_eq_accepted _ _ _).trans ih

theorem issues_map (f : α → β) (checked : Checked α) : (f <$> checked).issues = checked.issues := by
  cases checked <;> rfl

/-- The check accepts. -/
def Accepts (checked : Checked α) : Prop :=
  ∃ a, checked = .accepted a

theorem accepts_map (f : α → β) (checked : Checked α) :
    (f <$> checked).Accepts ↔ checked.Accepts := by
  cases checked <;> simp [Accepts]

theorem accepts_seq (function : Checked (α → β)) (argument : Checked α) :
    (function <*> argument).Accepts ↔ function.Accepts ∧ argument.Accepts := by
  cases function <;> cases argument <;> simp [Accepts, seq_eq, seq]

theorem accepts_under (step : Step) (checked : Checked α) :
    (checked.under step).Accepts ↔ checked.Accepts := by
  cases checked <;> simp [Accepts, under]

theorem accepts_within (path : List Step) (checked : Checked α) :
    (checked.within path).Accepts ↔ checked.Accepts := by
  simp only [Accepts, within_eq_accepted]

end Checked

/-- The issues of several parts, each seen from a step further out. -/
def Issue.ofParts (parts : List (Step × List Issue)) : List Issue :=
  parts.flatMap fun part => part.2.map (Issue.under part.1)

/-! ## Looking a member up -/

namespace Json

variable {α : Type} {members front back : List (String × α)} {name : String}

theorem find?_append (front back : List (String × α)) (name : String) :
    find? (front ++ back) name = (find? back name).or (find? front name) := by
  induction front with
  | nil => simp [find?]
  | cons member front ih =>
      rw [List.cons_append, find?, find?, ih]
      cases find? back name <;> cases find? front name <;> rfl

theorem find?_eq_none_iff : find? members name = none ↔ name ∉ members.map Prod.fst := by
  induction members with
  | nil => simp [find?]
  | cons member rest ih =>
      rw [List.map_cons, List.mem_cons, not_or, ← ih, find?]
      cases find? rest name <;> simp [eq_comm]

/-- The last member of a name is the one that is found. -/
theorem find?_of_last (value : α) (last : name ∉ back.map Prod.fst) :
    find? (front ++ (name, value) :: back) name = some value := by
  rw [find?_append, find?, find?_eq_none_iff.mpr last]
  simp

/-- A member of one name does not matter where another is looked up. -/
theorem find?_of_ne {other : String} (value : α) (differs : other ≠ name) :
    find? (front ++ (other, value) :: back) name = find? (front ++ back) name := by
  rw [find?_append, find?_append, find?]
  cases find? back name <;> simp [differs]

/-- Nor does a member that is followed by another of its name. -/
theorem find?_of_followed {other : String} (value : α) (followed : other ∈ back.map Prod.fst) :
    find? (front ++ (other, value) :: back) name = find? (front ++ back) name := by
  by_cases same : other = name
  · subst same
    have later : find? back other ≠ none := fun none => find?_eq_none_iff.mp none followed
    obtain ⟨found, there⟩ := Option.ne_none_iff_exists'.mp later
    rw [find?_append, find?_append, find?, there]
  · exact find?_of_ne value same

theorem exists_split_of_find? {value : α} (found : find? members name = some value) :
    ∃ front back, members = front ++ (name, value) :: back ∧ name ∉ back.map Prod.fst := by
  induction members with
  | nil => cases found
  | cons member rest ih =>
      rw [find?] at found
      cases later : find? rest name with
      | some there =>
          rw [later] at found
          cases found
          obtain ⟨front, back, rfl, last⟩ := ih later
          exact ⟨member :: front, back, rfl, last⟩
      | none =>
          rw [later] at found
          dsimp only at found
          split at found
          · rename_i same
            cases found
            subst same
            exact ⟨[], rest, rfl, find?_eq_none_iff.mp later⟩
          · cases found

end Json

/-! ## What a place is asked for -/

/-- What a place of a document is asked for. -/
inductive Slot where
  | script
  | block
  | expr
  | exprs
  | named
  | line
  | name
  | nameOrNull
  | names
  | flag
  | literal
  | blockKind
  deriving DecidableEq, Repr

namespace Slot

/-- What is read from the place. -/
abbrev Result : Slot → Type
  | .script => Script
  | .block => Block Expr
  | .expr => Expr
  | .exprs => List Expr
  | .named => List (String × Expr)
  | .line => Line
  | .name => String
  | .nameOrNull => Option String
  | .names => List String
  | .flag => Bool
  | .literal => Literal
  | .blockKind => Unit

/-- The check of what stands there. -/
def check : (slot : Slot) → Json → Checked slot.Result
  | .script => Script.ofJson
  | .block => Decode.block
  | .expr => Decode.expr
  | .exprs => Decode.exprs
  | .named => Decode.named
  | .line => Decode.line
  | .name => Decode.string
  | .nameOrNull => Decode.stringOrNull
  | .names => Decode.strings
  | .flag => LaxBool.ofJson
  | .literal => Decode.literal
  | .blockKind => Decode.blockKind

end Slot

/-! ## Fields -/

/-- What stands for a field that is left out, and a way to write it. -/
structure Default (slot : Slot) where
  value : slot.Result
  written : Json
  reads : slot.check written = .accepted value

/-- A declared field of an object. It has to be there if it has no default. -/
structure Field where
  key : String
  slot : Slot
  default? : Option (Default slot) := none

namespace Field

/-- What an object says of a field. -/
def read (field : Field) (members : List (String × Json)) : Checked field.slot.Result :=
  let found := Member.check? field.key field.slot.check members
  match field.default? with
  | some default => Member.optional default.value found
  | none => Member.required field.key found

abbrev line : Field := ⟨"line_number", .line, some ⟨none, .null, rfl⟩⟩

/-- The tag, where only a block may stand. -/
abbrev blockKind : Field := ⟨"kind", .blockKind, some ⟨(), .string Kind.block.tag, rfl⟩⟩

abbrev name : Field := ⟨"name", .name, none⟩

abbrev functionName : Field := ⟨"name", .nameOrNull, some ⟨none, .null, rfl⟩⟩

abbrev parameters : Field := ⟨"parameters", .names, some ⟨[], .array [], rfl⟩⟩

abbrev declaration : Field := ⟨"declaration", .flag, some ⟨false, .bool false, rfl⟩⟩

abbrev value : Field := ⟨"value", .literal, none⟩

/-- An expression, under any name. -/
abbrev expr (key : String) : Field := ⟨key, .expr, none⟩

/-- Expressions that may be left out, under any name. -/
abbrev exprs (key : String) : Field := ⟨key, .exprs, some ⟨[], .array [], rfl⟩⟩

/-- A block that has to be there, under any name. -/
abbrev block (key : String) : Field := ⟨key, .block, none⟩

abbrev onFalse : Field := ⟨"false_block", .block, some ⟨{}, .object [], rfl⟩⟩

abbrev named : Field := ⟨"init_map", .named, some ⟨[], .object [], rfl⟩⟩

variable {field : Field} {members members' : List (String × Json)}

theorem read_of_find? {json : Json} (found : Json.find? members field.key = some json) :
    field.read members = (field.slot.check json).under (.key field.key) := by
  unfold read Member.check?
  rw [found]
  cases field.default? <;> rfl

theorem read_of_default {default : Default field.slot}
    (absent : Json.find? members field.key = none) (default? : field.default? = some default) :
    field.read members = .accepted default.value := by
  unfold read Member.check?
  rw [absent, default?]
  rfl

theorem read_of_missing (absent : Json.find? members field.key = none)
    (required : field.default? = none) :
    field.read members = (Checked.issue .missing).under (.key field.key) := by
  unfold read Member.check?
  rw [absent, required]
  rfl

/-- A field is read by its name. -/
theorem read_congr (same : Json.find? members field.key = Json.find? members' field.key) :
    field.read members = field.read members' := by
  unfold read Member.check?
  rw [same]

/-- A field is not read from the member of another one. -/
theorem read_of_ne {other : Field} (differs : field.key ≠ other.key)
    (front back : List (String × Json)) (json json' : Json) :
    other.read (front ++ (field.key, json) :: back) =
      other.read (front ++ (field.key, json') :: back) :=
  read_congr (by rw [Json.find?_of_ne json differs, Json.find?_of_ne json' differs])

/-- The issues of a field, seen from where it stands or should stand. -/
def issues (field : Field) (members : List (String × Json)) : List Issue :=
  match Json.find? members field.key, field.default? with
  | some json, _ => (field.slot.check json).issues
  | none, none => [{ kind := .missing }]
  | none, some _ => []

theorem issues_read (field : Field) (members : List (String × Json)) :
    (field.read members).issues = (field.issues members).map (Issue.under (.key field.key)) := by
  unfold issues
  cases found : Json.find? members field.key with
  | some json => rw [read_of_find? found, Checked.issues_under]
  | none =>
      cases required : field.default? with
      | none => rw [read_of_missing found required, Checked.issues_under]; rfl
      | some default => rw [read_of_default found required]; rfl

theorem issues_of_find? {json : Json} (found : Json.find? members field.key = some json) :
    field.issues members = (field.slot.check json).issues := by
  rw [issues, found]

theorem issues_congr (same : Json.find? members field.key = Json.find? members' field.key) :
    field.issues members = field.issues members' := by
  rw [issues, issues, same]

/-- A field is accepted exactly when it is not missing and what stands there is accepted. -/
theorem accepts_read :
    (field.read members).Accepts ↔
      (Json.find? members field.key = none → field.default?.isSome = true) ∧
        ∀ json, Json.find? members field.key = some json → (field.slot.check json).Accepts := by
  cases found : Json.find? members field.key with
  | some json => simp [read_of_find? found, Checked.accepts_under]
  | none =>
      cases required : field.default? with
      | none => simp [read_of_missing found required, Checked.Accepts, Checked.issue]
      | some default => simp [read_of_default found required, Checked.Accepts]

end Field

/-- The fields of a node of a kind, in the order in which they are checked. -/
def Kind.fields : Kind → List Field
  | .block => [.line, .exprs "instrs"]
  | .literal => [.line, .value]
  | .var => [.line, .name]
  | .assignment => [.line, .name, .expr "expr", .declaration]
  | .function => [.line, .functionName, .parameters, .block "body"]
  | .returns => [.line, .expr "expr"]
  | .branch => [.line, .expr "condition", .block "true_block", .onFalse]
  | .record => [.line, .named]
  | .field => [.line, .expr "receiver", .name]
  | .fieldAssignment => [.line, .expr "receiver", .name, .expr "expr"]
  | .call => [.line, .expr "qualifier", .exprs "args"]
  | .methodCall => [.line, .expr "receiver", .name, .exprs "args"]

/-! ## Shapes -/

/-- What an object is read as, where a place is asked for something. -/
inductive Shape : Slot → Type where
  | script : Shape .script
  | block : Shape .block
  | node (kind : Kind) : Shape .expr

namespace Shape

variable {slot : Slot}

/-- The steps from the object to its fields. -/
def steps : Shape slot → List Step
  | .script | .block => []
  | .node kind => [.key kind.tag]

/-- The declared fields, in the order in which they are checked. -/
def fields : Shape slot → List Field
  | .script => [.block "body"]
  | .block => [.line, .blockKind, .exprs "instrs"]
  | .node kind => kind.fields

/-- What is made of the fields. -/
def build (read : (field : Field) → Checked field.slot.Result) :
    Shape slot → Checked slot.Result
  | .script => Script.mk <$> read (.block "body")
  | .block =>
      (fun line _ instrs => { line, instrs }) <$> read .line <*> read .blockKind
        <*> read (.exprs "instrs")
  | .node .block =>
      (fun line instrs => .block { line, instrs }) <$> read .line <*> read (.exprs "instrs")
  | .node .literal => .literal <$> read .line <*> read .value
  | .node .var => .var <$> read .line <*> read .name
  | .node .assignment =>
      .assignment <$> read .line <*> read .name <*> read (.expr "expr") <*> read .declaration
  | .node .function =>
      .function <$> read .line <*> read .functionName <*> read .parameters <*> read (.block "body")
  | .node .returns => .returns <$> read .line <*> read (.expr "expr")
  | .node .branch =>
      .branch <$> read .line <*> read (.expr "condition") <*> read (.block "true_block")
        <*> read .onFalse
  | .node .record => .record <$> read .line <*> read .named
  | .node .field => .field <$> read .line <*> read (.expr "receiver") <*> read .name
  | .node .fieldAssignment =>
      .fieldAssignment <$> read .line <*> read (.expr "receiver") <*> read .name
        <*> read (.expr "expr")
  | .node .call => .call <$> read .line <*> read (.expr "qualifier") <*> read (.exprs "args")
  | .node .methodCall =>
      .methodCall <$> read .line <*> read (.expr "receiver") <*> read .name <*> read (.exprs "args")

variable (shape : Shape slot) {read read' : (field : Field) → Checked field.slot.Result}

theorem nodup_keys : (shape.fields.map Field.key).Nodup := by
  cases shape with
  | node kind => cases kind <;> decide
  | _ => decide

/-- The tag of a node is not one of its fields. -/
theorem key_ne_kind (kind : Kind) {field : Field} (declared : field ∈ (node kind).fields) :
    field.key ≠ "kind" := by
  have all : ∀ field ∈ kind.fields, field.key ≠ "kind" := by cases kind <;> decide
  exact all field declared

/-- Two fields are one, or have different keys. -/
theorem eq_or_ne {field other : Field} (declared : field ∈ shape.fields)
    (declared' : other ∈ shape.fields) : field = other ∨ field.key ≠ other.key := by
  by_cases same : field.key = other.key
  · exact .inl (List.inj_on_of_nodup_map shape.nodup_keys declared declared' same)
  · exact .inr same

/-- A field stands among others of other keys. -/
theorem exists_split {field : Field} (declared : field ∈ shape.fields) : ∃ earlier later,
    shape.fields = earlier ++ field :: later ∧
      ∀ other ∈ earlier ++ later, other.key ≠ field.key := by
  obtain ⟨earlier, later, split⟩ := List.append_of_mem declared
  refine ⟨earlier, later, split, fun other listed same => ?_⟩
  have nodup := shape.nodup_keys
  rw [split, List.map_append, List.map_cons, List.nodup_middle, List.nodup_cons,
    ← List.map_append] at nodup
  exact nodup.1 (same ▸ List.mem_map_of_mem listed)

/-- The issues of an object are those of its fields, in the order in which these are checked. -/
theorem issues_build :
    (shape.build read).issues = shape.fields.flatMap fun field => (read field).issues := by
  cases shape with
  | node kind =>
      cases kind <;>
        simp [build, fields, Kind.fields, Checked.issues_seq, Checked.issues_map]
  | _ => simp [build, fields, Checked.issues_seq, Checked.issues_map]

/-- Nothing but the declared fields matters. -/
theorem build_congr (same : ∀ field ∈ shape.fields, read field = read' field) :
    shape.build read = shape.build read' := by
  cases shape with
  | node kind => cases kind <;> simp_all [build, fields, Kind.fields]
  | _ => simp_all [build, fields]

/-- An object is accepted exactly when all of its fields are. -/
theorem accepts_build :
    (shape.build read).Accepts ↔ ∀ field ∈ shape.fields, (read field).Accepts := by
  cases shape with
  | node kind =>
      cases kind <;>
        simp [build, fields, Kind.fields, Checked.accepts_seq, Checked.accepts_map, and_assoc]
  | _ => simp [build, fields, Checked.accepts_seq, Checked.accepts_map, and_assoc]

end Shape

namespace Slot

variable {slot : Slot} {shape : Shape slot} {members members' : List (String × Json)}

/-- What an object is read as, if the place is asked for an object with declared fields. An
expression has to have a tag that stands for a kind. -/
def shape? (members : List (String × Json)) : (slot : Slot) → Option (Shape slot)
  | .script => some .script
  | .block => some .block
  | .expr =>
      match Json.find? members "kind" with
      | some (.string tag) => (Kind.ofTag? tag).map .node
      | _ => none
  | _ => none

/-- A node is made of what its declared fields are read as. -/
theorem nodeWith_eq_build {kind : Kind}
    (tagged : Json.find? members "kind" = some (.string kind.tag)) :
    Decode.nodeWith kind members (Decode.membersOf members) =
      (Shape.node kind).build fun field => field.read members := by
  cases kind with
  | block =>
      -- the tag is checked once more, and is the one of a block
      have again : Member.check? "kind" Decode.blockKind members = some (.accepted ()) := by
        rw [Member.check?, tagged]
        rfl
      rw [Decode.nodeWith, Decode.blockWith, again]
      change _ <$> (_ <$> Field.line.read members <*> _ <*> (Field.exprs "instrs").read members) = _
      rw [Shape.build]
      cases Field.line.read members <;> cases (Field.exprs "instrs").read members <;> rfl
  | _ => rfl

/-- An object is checked by reading its declared fields. -/
theorem check_object (shaped : slot.shape? members = some shape) :
    slot.check (.object members) =
      (shape.build fun field => field.read members).within shape.steps := by
  cases slot with
  | script =>
      cases shaped
      rw [check, Script.ofJson, Decode.blockMember?_eq]
      rfl
  | block =>
      cases shaped
      rw [check, Decode.block, Decode.exprsMember?_eq]
      rfl
  | expr =>
      unfold shape? at shaped
      dsimp only at shaped
      split at shaped
      · rename_i tag tagged
        obtain ⟨kind, known, rfl⟩ := Option.map_eq_some_iff.mp shaped
        obtain rfl := Kind.tag_of_ofTag? known
        rw [check, Decode.expr_object, Decode.exprWith, tagged]
        simp only [known]
        rw [nodeWith_eq_build tagged]
        rfl
      · cases shaped
  | _ => cases shaped

/-- The issues of an object are those of its declared fields, in the order in which these are
checked and each below its name. -/
theorem issues_object (shaped : slot.shape? members = some shape) :
    (slot.check (.object members)).issues =
      (Issue.ofParts (shape.fields.map fun field =>
        (.key field.key, field.issues members))).map (Issue.within shape.steps) := by
  rw [check_object shaped, Checked.issues_within, Shape.issues_build, Issue.ofParts,
    List.flatMap_map]
  simp only [Field.issues_read]

theorem accepts_object (shaped : slot.shape? members = some shape) :
    (slot.check (.object members)).Accepts ↔
      ∀ field ∈ shape.fields, (field.read members).Accepts := by
  rw [check_object shaped, Checked.accepts_within, Shape.accepts_build]

/-- The shape does not depend on the values of declared fields. -/
theorem shape?_member (shape : Shape slot) {field : Field} (declared : field ∈ shape.fields)
    (front back : List (String × Json)) (json : Json) :
    slot.shape? (front ++ (field.key, json) :: back) = slot.shape? (front ++ back) := by
  cases shape with
  | script | block => rfl
  | node kind => rw [shape?, shape?, Json.find?_of_ne json (Shape.key_ne_kind kind declared)]

end Slot

end ScriptTree
