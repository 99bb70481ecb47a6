import ScriptTree.Proofs.Pairing.Reached

/-!
# Line numbers

Lines serve messages only. Two programs that differ in nothing but their lines
(`Expr.SameButLines`), wherever these are and whether or not they are known, run in the same way:
they print the same lines, and end with the same error or leave the same objects
(`Script.lines_inert`). What differs is the line of a failure and the lines in the records of calls.
-/

namespace ScriptTree

/-! ## Code, records and faults without their lines -/

/-- Two nodes that are the same but for their lines and the lines of the nodes inside. -/
inductive Expr.SameButLines : Expr → Expr → Prop
  | block {line line' : Line} {instrs instrs' : List Expr}
      (parts : List.Forall₂ SameButLines instrs instrs') :
    SameButLines (.block ⟨line, instrs⟩) (.block ⟨line', instrs'⟩)
  | literal {line line' : Line} {value : Literal} :
    SameButLines (.literal line value) (.literal line' value)
  | var {line line' : Line} {name : String} : SameButLines (.var line name) (.var line' name)
  | assignment {line line' : Line} {name : String} {value value' : Expr} {declares : Bool}
      (values : SameButLines value value') :
    SameButLines (.assignment line name value declares) (.assignment line' name value' declares)
  | function {line line' : Line} {name : Option String} {parameters : List String}
      {body body' : Block Expr} (bodies : SameButLines (.block body) (.block body')) :
    SameButLines (.function line name parameters body) (.function line' name parameters body')
  | returns {line line' : Line} {value value' : Expr} (values : SameButLines value value') :
    SameButLines (.returns line value) (.returns line' value')
  | branch {line line' : Line} {condition condition' : Expr}
      {onTrue onTrue' onFalse onFalse' : Block Expr}
      (conditions : SameButLines condition condition')
      (trues : SameButLines (.block onTrue) (.block onTrue'))
      (falses : SameButLines (.block onFalse) (.block onFalse')) :
    SameButLines (.branch line condition onTrue onFalse)
      (.branch line' condition' onTrue' onFalse')
  | record {line line' : Line} {fields fields' : List (String × Expr)}
      (names : fields'.map Prod.fst = fields.map Prod.fst)
      (parts : List.Forall₂ SameButLines (fields.map Prod.snd) (fields'.map Prod.snd)) :
    SameButLines (.record line fields) (.record line' fields')
  | field {line line' : Line} {receiver receiver' : Expr} {name : String}
      (receivers : SameButLines receiver receiver') :
    SameButLines (.field line receiver name) (.field line' receiver' name)
  | fieldAssignment {line line' : Line} {receiver receiver' value value' : Expr} {name : String}
      (receivers : SameButLines receiver receiver') (values : SameButLines value value') :
    SameButLines (.fieldAssignment line receiver name value)
      (.fieldAssignment line' receiver' name value')
  | call {line line' : Line} {callee callee' : Expr} {arguments arguments' : List Expr}
      (callees : SameButLines callee callee')
      (parts : List.Forall₂ SameButLines arguments arguments') :
    SameButLines (.call line callee arguments) (.call line' callee' arguments')
  | methodCall {line line' : Line} {receiver receiver' : Expr} {name : String}
      {arguments arguments' : List Expr} (receivers : SameButLines receiver receiver')
      (parts : List.Forall₂ SameButLines arguments arguments') :
    SameButLines (.methodCall line receiver name arguments)
      (.methodCall line' receiver' name arguments')
  | unknown {line line' : Line} {kind : String} :
    SameButLines (.unknown line kind) (.unknown line' kind)

/-- What invoking two objects does, which is the same but for lines. The scopes that functions keep
are compared as objects (`Heap.Copies`). -/
inductive Body.SameButLines : Body → Body → Prop
  | builtin {builtin : Builtin} : SameButLines (.builtin builtin) (.builtin builtin)
  | closure {lambda lambda' : Lambda} {scope scope' : Ref} (name : lambda'.name = lambda.name)
      (parameters : lambda'.parameters = lambda.parameters)
      (bodies : Expr.SameButLines (.block lambda.body) (.block lambda'.body)) :
    SameButLines (.closure lambda scope) (.closure lambda' scope')

/-- A record without the line that it shows. -/
def LogRecord.withoutLine : LogRecord → LogRecord
  | .calling _ function arguments => .calling none function arguments
  | record => record

/-- A fault without the line that a failure has. -/
def Fault.withoutLine : Fault → Fault
  | .failure error => .failure { error with line := none }
  | fault => fault

/-- Two heaps that are the same but for lines in the functions: as far as can be reached from the
root scope, one to one, with the same names, fields, parents, functions and scopes that these
keep. -/
def Heap.AgreeButLines (heap heap' : Heap) : Prop :=
  ∃ same, heap.Copies same heap' ∧ (∀ ref, heap.Reached ref → ∃ ref', same ref ref') ∧
    (∀ ref', heap'.Reached ref' → ∃ ref, same ref ref') ∧
    ∀ {ref ref' object object'}, same ref ref' → heap.get? ref = some object →
      heap'.get? ref' = some object' → Option.Rel Body.SameButLines object.body object'.body

/-- Two reports that are the same but for lines. -/
structure Report.SameButLines (report report' : Report) : Prop where
  sink : report'.state.sink = report.state.sink
  ending : report'.ending.mapError Fault.withoutLine = report.ending.mapError Fault.withoutLine
  strict : report'.state.log.strict = report.state.log.strict
  records : report'.state.log.records.toList.map LogRecord.withoutLine =
    report.state.log.records.toList.map LogRecord.withoutLine
  heap : report.state.heap.AgreeButLines report'.state.heap

/-! ## The two programs -/

namespace LineNumbers

/-- Two programs that are the same but for their lines. -/
def pairing : Pairing Unit where
  toNaming := .same
  code _ := Expr.SameButLines
  line _ _ := True
  line_refl _ := trivial
  line_orElse _ _ := trivial
  unknown name name' := name' = name
  inserted _ := False

theorem fields_of_parts {fields fields' : List (String × Expr)}
    (names : fields'.map Prod.fst = fields.map Prod.fst)
    (parts : List.Forall₂ Expr.SameButLines (fields.map Prod.snd) (fields'.map Prod.snd)) :
    List.Forall₂ (fun field field' => field'.1 = field.1 ∧ field.2.SameButLines field'.2)
      fields fields' := by
  rw [List.forall₂_map_left_iff, List.forall₂_map_right_iff] at parts
  have named : List.Forall₂ (fun field field' : String × Expr => field'.1 = field.1)
      fields fields' := by
    rw [← List.forall₂_eq_eq_eq, List.forall₂_map_left_iff, List.forall₂_map_right_iff] at names
    exact names.flip
  induction parts with
  | nil => exact .nil
  | cons first _ ih =>
      cases named with
      | cons name others =>
          obtain ⟨-, rest⟩ := List.cons.inj names
          exact .cons ⟨name, first⟩ (ih rest others)

/-- The parameters of a function are the same on both sides, and so are all other names. -/
theorem binds (parameters : List String) : pairing.Binds () () parameters parameters where
  renamed := (List.map_id _).symm
  known _ _ := trivial
  free _ _ _ _ := ⟨trivial, rfl⟩

theorem lawful : pairing.Lawful where
  unseen := False.elim
  nodes := by
    intro region expr expr' same
    cases same with
    | block parts => exact .block trivial (.of_forall₂ parts)
    | literal => exact .literal
    | var => exact .var trivial
    | assignment values => exact .assignment trivial trivial (fun _ => rfl) values
    | function bodies =>
        exact .function (fun _ _ => ⟨trivial, rfl⟩) ⟨trivial, rfl, (), binds _, bodies⟩
    | returns values => exact .returns values
    | branch conditions trues falses => exact .branch trivial conditions trues falses
    | record names parts => exact .record (fields_of_parts names parts)
    | field receivers => exact .field trivial receivers
    | fieldAssignment receivers values => exact .fieldAssignment trivial receivers values
    | call callees parts => exact .call trivial callees parts
    | methodCall receivers parts => exact .methodCall trivial receivers parts
    | unknown => exact .unknown trivial

variable {matching : Matching Unit}

theorem agreeButLines {heap heap' : Heap} (heaps : pairing.Heaps matching heap heap') :
    heap.AgreeButLines heap' := by
  refine ⟨_, heaps.copies, fun _ reached => heaps.copies.reached reached,
    fun _ reached => heaps.copies.symm.reached reached, ?_⟩
  intro ref ref' object object' matched found found'
  obtain ⟨there, there', foundThere, foundThere', objects⟩ := heaps.objects matched
  cases found.symm.trans foundThere
  cases found'.symm.trans foundThere'
  have bodies := objects.bodies
  generalize object.body = body at bodies
  generalize object'.body = body' at bodies
  cases bodies with
  | none => exact .none
  | builtin => exact .some .builtin
  | closure _ lambdas =>
      obtain ⟨-, name, region, binds, codes⟩ := lambdas
      exact .some (.closure name (binds.renamed.trans (List.map_id _)) codes)

theorem ending_eq {ending ending' : Except Fault Unit} (endings : pairing.Endings ending ending') :
    ending'.mapError Fault.withoutLine = ending.mapError Fault.withoutLine := by
  cases endings with
  | ok => rfl
  | error faults =>
      cases faults with
      | failure causes =>
          cases causes with
          | same => rfl
          | unknownVariable unknown =>
              obtain rfl : _ = _ := unknown
              rfl
      | digitLimit | sinkClosed | tooDeep => rfl

/-- Nothing is inserted and nothing is nested. -/
theorem not_costlier : ¬ pairing.Costlier
  | .inr ⟨_, inserted⟩ => inserted

theorem withoutLine_eq {record record' : LogRecord} (records : pairing.Records record record') :
    record'.withoutLine = record.withoutLine := by
  cases records with
  | started same => rw [same.resolve_right not_costlier]
  | finished | printing | calling => rfl

theorem sameButLines {report report' : Report} (reports : pairing.Reports report report') :
    report.SameButLines report' := by
  obtain ⟨⟨matching, heaps, sink, strict, records⟩, endings⟩ := reports
  refine ⟨sink, ending_eq endings, strict, ?_, agreeButLines heaps⟩
  rw [← List.forall₂_eq_eq_eq, List.forall₂_map_left_iff, List.forall₂_map_right_iff]
  exact records.flip.imp fun _ _ => withoutLine_eq

end LineNumbers

namespace Script

/-- Line numbers are inert. Two programs that are the same but for their lines are both refused, or
they print the same lines, end in the same way, with the same failure if they fail, and leave the
same objects. Only the line of the failure and the lines that records of calls show may differ. -/
theorem lines_inert (script script' : Script)
    (same : Expr.SameButLines (.block script.body) (.block script'.body)) (settings : Settings)
    (sink : Sink) (log : Log) :
    RunsAlike Report.SameButLines (script.run (.sink sink) settings log)
      (script'.run (.sink sink) settings log) :=
  Pairing.runsAlike settings sink log LineNumbers.lawful same (fun _ => False.elim)
    LineNumbers.sameButLines

/-- Prints a number and then adds a string to it, in a function and with one line everywhere. -/
def mixedSum (line : Line) : Script :=
  ⟨.mk line [
    .function line (some "f") ["x"] (.mk line [
      .call line (.var line "print") [.var line "x"],
      .returns line (.call line (.var line "+") [.var line "x", .literal line (.str "a")])]),
    .call line (.var line "f") [.literal line (.int 1)]]⟩

theorem sameButLines_mixedSum (line line' : Line) :
    Expr.SameButLines (.block (mixedSum line).body) (.block (mixedSum line').body) := by
  have print : Expr.SameButLines (.call line (.var line "print") [.var line "x"])
      (.call line' (.var line' "print") [.var line' "x"]) :=
    .call .var (.cons .var .nil)
  have add : Expr.SameButLines
      (.returns line (.call line (.var line "+") [.var line "x", .literal line (.str "a")]))
      (.returns line' (.call line' (.var line' "+") [.var line' "x", .literal line' (.str "a")])) :=
    .returns (.call .var (.cons .var (.cons .literal .nil)))
  apply Expr.SameButLines.block
  refine .cons (.function (.block (.cons print (.cons add .nil)))) (.cons ?_ .nil)
  exact .call .var (.cons .literal .nil)

theorem lines_inert_mixedSum :
    Expr.SameButLines (.block (mixedSum (some 3)).body) (.block (mixedSum none).body) ∧
    RunsAlike Report.SameButLines ((mixedSum (some 3)).run (.sink .empty) .standard {})
      ((mixedSum none).run (.sink .empty) .standard {}) := by
  have same := sameButLines_mixedSum (some 3) none
  exact ⟨same, lines_inert (mixedSum (some 3)) (mixedSum none) same .standard .empty {}⟩

end Script

end ScriptTree
