import ScriptTree.Proofs.Json.ReadPrinted
import ScriptTree.Script.Decode
import ScriptTree.Script.Encode

/-!
# A program is read back from its canonical text

Decoding undoes encoding, node by node (`Decode.expr_encode`), and reading undoes printing, so the
canonical text of a program is accepted and gives that program, unless the document is nested deeper
than the reader goes (`Script.ofText_toText`).

What a document cannot hold is left out by `Expr.Documented`: nodes of no kind, integers too long to
be shown, and two fields of one name in the text of one record.
-/

namespace ScriptTree

/-! ## Programs that a document can hold -/

/-- The line is not known, or is short enough to be shown. -/
def Line.Documented (line : Line) : Prop :=
  ∀ n ∈ line, Decimal.fits n = true

/-- The constant is short enough to be shown. -/
def Literal.Documented : Literal → Prop
  | .int n => Decimal.fits n = true
  | .str _ => True

/-- A tree of the twelve kinds, with lines and constants that can be shown, in which no record is
given a field twice. -/
inductive Expr.Documented : Expr → Prop
  | block {line : Line} {instrs : List Expr} (known : line.Documented)
      (inside : ∀ instr ∈ instrs, instr.Documented) : Documented (.block ⟨line, instrs⟩)
  | literal {line : Line} {value : Literal} (known : line.Documented) (shown : value.Documented) :
      Documented (.literal line value)
  | var {line : Line} {name : String} (known : line.Documented) : Documented (.var line name)
  | assignment {line : Line} {name : String} {value : Expr} {declares : Bool}
      (known : line.Documented) (inside : value.Documented) :
      Documented (.assignment line name value declares)
  | function {line : Line} {name : Option String} {parameters : List String} {body : Block Expr}
      (known : line.Documented) (inside : (Expr.block body).Documented) :
      Documented (.function line name parameters body)
  | returns {line : Line} {value : Expr} (known : line.Documented) (inside : value.Documented) :
      Documented (.returns line value)
  | branch {line : Line} {condition : Expr} {onTrue onFalse : Block Expr}
      (known : line.Documented) (inside : condition.Documented)
      (insideTrue : (Expr.block onTrue).Documented)
      (insideFalse : (Expr.block onFalse).Documented) :
      Documented (.branch line condition onTrue onFalse)
  | record {line : Line} {fields : List (String × Expr)} (known : line.Documented)
      (nodup : (Fields.keys fields).Nodup) (inside : ∀ field ∈ fields, field.2.Documented) :
      Documented (.record line fields)
  | field {line : Line} {receiver : Expr} {name : String} (known : line.Documented)
      (inside : receiver.Documented) : Documented (.field line receiver name)
  | fieldAssignment {line : Line} {receiver : Expr} {name : String} {value : Expr}
      (known : line.Documented) (insideReceiver : receiver.Documented)
      (inside : value.Documented) : Documented (.fieldAssignment line receiver name value)
  | call {line : Line} {callee : Expr} {arguments : List Expr} (known : line.Documented)
      (insideCallee : callee.Documented) (inside : ∀ argument ∈ arguments, argument.Documented) :
      Documented (.call line callee arguments)
  | methodCall {line : Line} {receiver : Expr} {name : String} {arguments : List Expr}
      (known : line.Documented) (insideReceiver : receiver.Documented)
      (inside : ∀ argument ∈ arguments, argument.Documented) :
      Documented (.methodCall line receiver name arguments)

/-- A program that a document can hold. -/
def Script.Documented (script : Script) : Prop :=
  (Expr.block script.body).Documented

/-! ## The document of a program -/

namespace Encode

theorem exprs_eq_map (list : List Expr) : exprs list = list.map expr := by
  induction list with
  | nil => rfl
  | cons first rest ih => rw [exprs, ih, List.map_cons]

theorem named_eq_map (fields : List (String × Expr)) :
    named fields = fields.map fun field => (field.1, expr field.2) := by
  induction fields with
  | nil => rfl
  | cons field rest ih => rw [named, ih, List.map_cons]

/-- A block is encoded as an expression exactly as it is where nothing else may stand. -/
@[simp] theorem expr_block (body : Block Expr) : expr (.block body) = block body := by
  rw [expr]

theorem plain_line {source : Line} (known : source.Documented) : (line source).Plain := by
  cases source with
  | none => exact .null
  | some n => exact .int (known n rfl)

theorem plain_literal {value : Literal} (shown : value.Documented) : (literal value).Plain := by
  cases value with
  | int n => exact .int shown
  | str text => exact .string

theorem plain_name (source : Option String) : (name source).Plain := by
  cases source with
  | none => exact .null
  | some text => exact .string

/-- A node is plain when its line and its own members are. -/
theorem plain_node {source : Line} {tag : String} {members : List (String × Json)}
    (known : source.Documented) (own : ∀ member ∈ members, member.2.Plain) :
    (node source tag members).Plain :=
  .object (List.forall_mem_cons.mpr ⟨plain_line known, List.forall_mem_cons.mpr ⟨.string, own⟩⟩)

theorem plain_exprs {list : List Expr} (inside : ∀ e ∈ list, (expr e).Plain) :
    (Json.array (exprs list)).Plain := by
  rw [exprs_eq_map]
  exact .array (List.forall_mem_map.mpr inside)

theorem plain_named {fields : List (String × Expr)}
    (inside : ∀ field ∈ fields, (expr field.2).Plain) : (Json.object (named fields)).Plain := by
  rw [named_eq_map]
  exact .object (List.forall_mem_map.mpr inside)

theorem plain_parameters (parameters : List String) :
    (Json.array (parameters.map .string)).Plain :=
  .array (List.forall_mem_map.mpr fun _ _ => .string)

/-- Every integer in the document of a program is short enough to be shown. -/
theorem plain_expr {e : Expr} (documented : e.Documented) : (expr e).Plain := by
  induction documented with
  | block known _ ih => exact plain_node known (by simp [plain_exprs ih])
  | literal known shown => exact plain_node known (by simp [plain_literal shown])
  | var known => exact plain_node known (by simp [Json.Plain.string])
  | assignment known _ ih =>
      exact plain_node known (by simp [ih, Json.Plain.string, Json.Plain.bool])
  | function known _ ih =>
      rw [expr_block] at ih
      exact plain_node known (by simp [plain_name, plain_parameters, ih])
  | returns known _ ih => exact plain_node known (by simp [ih])
  | branch known _ _ _ ih ihTrue ihFalse =>
      rw [expr_block] at ihTrue ihFalse
      exact plain_node known (by simp [ih, ihTrue, ihFalse])
  | record known _ _ ih => exact plain_node known (by simp [plain_named ih])
  | field known _ ih => exact plain_node known (by simp [ih, Json.Plain.string])
  | fieldAssignment known _ _ ihReceiver ih =>
      exact plain_node known (by simp [ihReceiver, ih, Json.Plain.string])
  | call known _ _ ihCallee ih => exact plain_node known (by simp [ihCallee, plain_exprs ih])
  | methodCall known _ _ ihReceiver ih =>
      exact plain_node known (by simp [ihReceiver, Json.Plain.string, plain_exprs ih])

end Encode

/-! ## Decoding it -/

namespace Member

variable {α : Type}

@[simp] theorem required_some (name : String) (checked : Checked α) :
    required name (some checked) = checked := rfl

@[simp] theorem optional_some (default : α) (checked : Checked α) :
    optional default (some checked) = checked := rfl

@[simp] theorem optional_none (default : α) : optional default none = .accepted default := rfl

end Member

namespace Decode

/-- The members of an object, by name, each checked as what it is asked for. -/
def membersOf (members : List (String × Json)) : Members where
  expr? name := Member.check? name expr members
  block? name := Member.check? name block members
  exprs? name := Member.check? name exprs members
  named? name := Member.check? name named members

theorem expr_object (members : List (String × Json)) :
    expr (.object members) = exprWith members (membersOf members) := by
  simp only [expr, membersOf, exprMember?_eq, blockMember?_eq, exprsMember?_eq, namedMember?_eq]

@[simp] theorem line_encode (source : Line) : line (Encode.line source) = .accepted source := by
  cases source <;> rfl

@[simp] theorem literal_encode (value : Literal) :
    literal (Encode.literal value) = .accepted value := by
  cases value <;> rfl

@[simp] theorem stringOrNull_encode (source : Option String) :
    stringOrNull (Encode.name source) = .accepted source := by
  cases source <;> rfl

@[simp] theorem strings_encode (texts : List String) :
    strings (.array (texts.map .string)) = .accepted texts := by
  have all (position : Nat) : stringsFrom position (texts.map .string) = .accepted texts := by
    induction texts generalizing position with
    | nil => rfl
    | cons text rest ih => simp [stringsFrom, string, ih]
  exact all 0

/-- An encoded node is decoded as a node of its kind. -/
theorem expr_node (source : Line) (kind : Kind) (own : List (String × Json))
    (kindless : Json.find? own "kind" = none) :
    expr (Encode.node source kind.tag own) =
      (nodeWith kind (("line_number", Encode.line source) :: ("kind", .string kind.tag) :: own)
        (membersOf
          (("line_number", Encode.line source) :: ("kind", .string kind.tag) :: own))).under
        (.key kind.tag) := by
  have tagged : Json.find?
      (("line_number", Encode.line source) :: ("kind", .string kind.tag) :: own) "kind" =
        some (.string kind.tag) := by
    simp [Json.find?, kindless]
  rw [Encode.node, expr_object, exprWith, tagged]
  simp only [Kind.ofTag?_tag]

@[simp] theorem lineMember_node (source : Line) (kind : Json) {own : List (String × Json)}
    (lineless : Json.find? own "line_number" = none) :
    lineMember (("line_number", Encode.line source) :: ("kind", kind) :: own) =
      .accepted source := by
  simp [lineMember, Member.check?, Json.find?, lineless, line_encode, Member.optional]

theorem exprs_encode {list : List Expr}
    (inside : ∀ e ∈ list, expr (Encode.expr e) = .accepted e) :
    exprs (.array (Encode.exprs list)) = .accepted list := by
  have all (position : Nat) : exprsFrom position (Encode.exprs list) = .accepted list := by
    induction list generalizing position with
    | nil => rfl
    | cons first rest ih =>
        obtain ⟨here, later⟩ := List.forall_mem_cons.mp inside
        simp [Encode.exprs, exprsFrom, here, ih later]
  exact all 0

theorem named_encode {fields : List (String × Expr)} (nodup : (Fields.keys fields).Nodup)
    (inside : ∀ field ∈ fields, expr (Encode.expr field.2) = .accepted field.2) :
    named (.object (Encode.named fields)) = .accepted fields := by
  have all : namedFrom (Encode.named fields) = .accepted fields := by
    clear nodup
    induction fields with
    | nil => rfl
    | cons field rest ih =>
        obtain ⟨here, later⟩ := List.forall_mem_cons.mp inside
        simp [Encode.named, namedFrom, here, ih later]
  rw [named, all, Checked.map_accepted, Fields.ofList_of_nodup nodup]

/-- A block is decoded as an expression exactly as it is where nothing else may stand. -/
theorem block_encode {body : Block Expr}
    (decoded : expr (Encode.block body) = .accepted (.block body)) :
    block (Encode.block body) = .accepted body := by
  have node : expr (Encode.block body) =
      (Expr.block <$> block (Encode.block body)).under (.key Kind.block.tag) := by
    obtain ⟨line, instrs⟩ := body
    rw [Encode.block, expr_node line .block _ rfl, Encode.node, block, exprsMember?_eq]
    rfl
  rw [node, Checked.under_eq_accepted, Checked.map_accepted_iff] at decoded
  obtain ⟨found, accepted, same⟩ := decoded
  rw [accepted, Expr.block.inj same]

/-- Decoding undoes encoding. -/
theorem expr_encode {e : Expr} (documented : e.Documented) :
    expr (Encode.expr e) = .accepted e := by
  induction documented with
  | @block line instrs known _ ih =>
      rw [Encode.expr, Encode.block, expr_node line .block _ rfl]
      simp [nodeWith, membersOf, Member.check?, Json.find?, blockWith, blockKind, exprs_encode ih]
  | @literal line value =>
      rw [Encode.expr, expr_node line .literal _ rfl]
      simp [nodeWith, Member.check?, Json.find?]
  | @var line name =>
      rw [Encode.expr, expr_node line .var _ rfl]
      simp [nodeWith, Member.check?, Json.find?, nameMember, string]
  | @assignment line name value declares _ _ ih =>
      rw [Encode.expr, expr_node line .assignment _ rfl]
      simp [nodeWith, membersOf, Member.check?, Json.find?, nameMember, string, ih, LaxBool.ofJson]
  | @function line name parameters body _ _ ih =>
      rw [Encode.expr_block] at ih
      rw [Encode.expr, expr_node line .function _ rfl]
      simp [nodeWith, membersOf, Member.check?, Json.find?, block_encode ih]
  | @returns line value _ _ ih =>
      rw [Encode.expr, expr_node line .returns _ rfl]
      simp [nodeWith, membersOf, Member.check?, Json.find?, ih]
  | @branch line condition onTrue onFalse _ _ _ _ ih ihTrue ihFalse =>
      rw [Encode.expr_block] at ihTrue ihFalse
      rw [Encode.expr, expr_node line .branch _ rfl]
      simp [nodeWith, membersOf, Member.check?, Json.find?, ih, block_encode ihTrue,
        block_encode ihFalse]
  | @record line fields _ nodup _ ih =>
      rw [Encode.expr, expr_node line .record _ rfl]
      simp [nodeWith, membersOf, Member.check?, Json.find?, named_encode nodup ih]
  | @field line receiver name _ _ ih =>
      rw [Encode.expr, expr_node line .field _ rfl]
      simp [nodeWith, membersOf, Member.check?, Json.find?, nameMember, string, ih]
  | @fieldAssignment line receiver name value _ _ _ ihReceiver ih =>
      rw [Encode.expr, expr_node line .fieldAssignment _ rfl]
      simp [nodeWith, membersOf, Member.check?, Json.find?, nameMember, string, ihReceiver, ih]
  | @call line callee arguments _ _ _ ihCallee ih =>
      rw [Encode.expr, expr_node line .call _ rfl]
      simp [nodeWith, membersOf, Member.check?, Json.find?, ihCallee, exprs_encode ih]
  | @methodCall line receiver name arguments _ _ _ ihReceiver ih =>
      rw [Encode.expr, expr_node line .methodCall _ rfl]
      simp [nodeWith, membersOf, Member.check?, Json.find?, nameMember, string, ihReceiver,
        exprs_encode ih]

end Decode

/-! ## Programs and their texts -/

namespace Script

theorem ofJson_body (body : Json) :
    ofJson (.object [("body", body)]) =
      Script.mk <$> (Decode.block body).under (.key "body") := by
  simp [ofJson, Decode.blockMember?_eq, Member.check?, Json.find?]

theorem ofJson_toJson {script : Script} (documented : script.Documented) :
    ofJson script.toJson = .accepted script := by
  have body := Decode.expr_encode documented
  rw [Encode.expr_block] at body
  rw [toJson, ofJson_body, Decode.block_encode body]
  rfl

theorem plain_toJson {script : Script} (documented : script.Documented) : script.toJson.Plain := by
  have body := Encode.plain_expr documented
  rw [Encode.expr_block] at body
  exact .object (by simp [body])

/-- The canonical text of a program is the text of the program, and is refused only when the
document is nested deeper than the reader goes. -/
theorem ofText_toText_eq {script : Script} (documented : script.Documented) :
    ofText script.toText =
      if script.toJson.depth ≤ Json.Limits.standard.depth then .accepted script
      else .issue .jsonInvalid := by
  have read : Json.read? .standard (script.toJson.print Json.escape) = _ :=
    Json.read?_print (Nat.le_refl _) (plain_toJson documented)
  rw [ofText, toText, Json.render, String.toList_ofList, read]
  by_cases shallow : script.toJson.depth ≤ Json.Limits.standard.depth
  · rw [if_pos shallow, if_pos shallow]
    exact ofJson_toJson documented
  · rw [if_neg shallow, if_neg shallow]

/-- A program is read back from its canonical text. -/
theorem ofText_toText {script : Script} (documented : script.Documented)
    (shallow : script.toJson.depth ≤ Json.Limits.standard.depth) :
    ofText script.toText = .accepted script := by
  rw [ofText_toText_eq documented, if_pos shallow]

/-- A program with a node of every kind, and with lines, constants and names that are easily lost:
zero and negative lines beside unknown ones, a text of digits, a long integer, characters that are
escaped, empty names, and fields that are not in alphabetical order. -/
def everyKind : Script where
  body :=
    { line := some 0
      instrs :=
        [.block { line := some (-3) },
          .assignment none "" (.literal (some 2) (.int (-123456789012345678901234567890))) true,
          .assignment (some 3) "x" (.literal none (.str "12")) false,
          .function none none ["b", "a", "b"]
            { instrs := [.returns (some 5) (.var none "\"\\\n\x01é😀")] },
          .function (some 6) (some "") [] {},
          .branch none (.var none "x") { line := some 8 } {},
          .record (some 9) [("z", .var none "x"), ("", .literal none (.int 0))],
          .fieldAssignment none (.field none (.var none "x") "z") "y" (.var none "x"),
          .call none (.var none "+") [.var none "x", .var (some 1) "y"],
          .methodCall (some 10) (.var none "x") "m" [.var none "x"]] }

theorem documented_everyKind : everyKind.Documented := by
  have unknown : Line.Documented none := nofun
  have known {n : Int} (fits : Decimal.fits n = true) : Line.Documented (some n) := by
    rintro _ ⟨⟩
    exact fits
  have var (name : String) : (Expr.var none name).Documented := .var unknown
  have only {e : Expr} (documented : e.Documented) : ∀ item ∈ [e], item.Documented :=
    List.forall_mem_singleton.mpr documented
  have empty {line : Line} (known : line.Documented) : (Expr.block { line }).Documented :=
    .block known nofun
  refine .block (known (by decide +kernel)) ?_
  simp only [List.forall_mem_cons]
  refine ⟨empty (known (by decide +kernel)), ?long, ?digits, ?anonymous, ?named, ?branch, ?record,
    ?fields, ?call, ?method, nofun⟩
  case long =>
    have shown : Decimal.fits (-123456789012345678901234567890) = true := by decide +kernel
    exact .assignment unknown (.literal (known (by decide +kernel)) shown)
  case digits => exact .assignment (known (by decide +kernel)) (.literal unknown trivial)
  case anonymous =>
    exact .function unknown (.block unknown (only (.returns (known (by decide +kernel)) (var _))))
  case named => exact .function (known (by decide +kernel)) (empty unknown)
  case branch =>
    exact .branch unknown (var _) (empty (known (by decide +kernel))) (empty unknown)
  case record =>
    have zero : Decimal.fits 0 = true := by decide +kernel
    refine .record (known (by decide +kernel)) (by decide) ?_
    simp only [List.forall_mem_cons]
    exact ⟨var _, .literal unknown zero, nofun⟩
  case fields => exact .fieldAssignment unknown (.field unknown (var _)) (var _)
  case call =>
    refine .call unknown (var _) ?_
    simp only [List.forall_mem_cons]
    exact ⟨var _, .var (known (by decide +kernel)), nofun⟩
  case method => exact .methodCall (known (by decide +kernel)) (var _) (only (var _))

theorem ofText_toText_everyKind : ofText everyKind.toText = .accepted everyKind :=
  ofText_toText documented_everyKind (by decide)

end Script

end ScriptTree
