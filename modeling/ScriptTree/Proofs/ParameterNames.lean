import ScriptTree.Proofs.Pairing.Programs

/-!
# Names of parameters

A parameter may have any name. `Script.renameParameter` gives a parameter of one function a new
name, in the list of parameters and in all code of the body, and `Script.parameter_names` says what
a run can show of that: nothing but the new name, when an assignment in the body reports it as
unknown.

The old name must not be the name of a function inside, since functions show their names, and the
new one must be new in the function. Then the scopes of all calls made in the function, and in the
functions inside it, bind the one name where they have bound the other (`Side.inside`). No lookup of
the parameter crosses into the scopes outside, where the two names may both mean something: the
function itself binds it.
-/

namespace ScriptTree

/-! ## New names -/

/-- A name, with one replaced by another. -/
def swapName (old new name : String) : String :=
  if name = old then new else name

theorem swapName_of_ne {old new name : String} (other : name ≠ old) :
    swapName old new name = name :=
  if_neg other

theorem swapName_self {old new : String} : swapName old new old = new :=
  if_pos rfl

/-- Names that differ from the new one stay apart. -/
theorem eq_of_swapName {old new first second : String} (known : first ≠ new) (known' : second ≠ new)
    (same : swapName old new first = swapName old new second) : first = second := by
  by_cases isOld : first = old
  · by_cases isOld' : second = old
    · rw [isOld, isOld']
    · rw [isOld, swapName_self, swapName_of_ne isOld'] at same
      exact absurd same.symm known'
  · by_cases isOld' : second = old
    · rw [isOld', swapName_self, swapName_of_ne isOld] at same
      exact absurd same known
    · rwa [swapName_of_ne isOld, swapName_of_ne isOld'] at same

namespace Rename

mutual

/-- A node with new names for variables and parameters. The names of functions, fields and methods
stay. -/
def expr (rename : String → String) : Expr → Expr
  | .block body => .block (block rename body)
  | .literal line value => .literal line value
  | .var line name => .var line (rename name)
  | .assignment line name value declares =>
      .assignment line (rename name) (expr rename value) declares
  | .function line name parameters body =>
      .function line name (parameters.map rename) (block rename body)
  | .returns line value => .returns line (expr rename value)
  | .branch line condition onTrue onFalse =>
      .branch line (expr rename condition) (block rename onTrue) (block rename onFalse)
  | .record line fields => .record line (named rename fields)
  | .field line receiver name => .field line (expr rename receiver) name
  | .fieldAssignment line receiver name value =>
      .fieldAssignment line (expr rename receiver) name (expr rename value)
  | .call line callee arguments => .call line (expr rename callee) (exprs rename arguments)
  | .methodCall line receiver name arguments =>
      .methodCall line (expr rename receiver) name (exprs rename arguments)
  | .unknown line kind => .unknown line kind

/-- A block with new names. -/
def block (rename : String → String) : Block Expr → Block Expr
  | ⟨line, instrs⟩ => ⟨line, exprs rename instrs⟩

/-- Expressions with new names. -/
def exprs (rename : String → String) : List Expr → List Expr
  | [] => []
  | first :: rest => expr rename first :: exprs rename rest

/-- Initial values of fields with new names. -/
def named (rename : String → String) : List (String × Expr) → List (String × Expr)
  | [] => []
  | (name, first) :: rest => (name, expr rename first) :: named rename rest

end

variable (rename : String → String)

theorem exprs_eq_mapIdx (list : List Expr) :
    exprs rename list = list.mapIdx fun _ => expr rename := by
  induction list with
  | nil => rfl
  | cons first rest ih => rw [exprs, ih, List.mapIdx_cons]

theorem named_eq_mapIdx (fields : List (String × Expr)) :
    named rename fields = fields.mapIdx fun _ field => (field.1, expr rename field.2) := by
  induction fields with
  | nil => rfl
  | cons field rest ih => rw [named, ih, List.mapIdx_cons]

theorem expr_block (body : Block Expr) :
    expr rename (.block body) = .block (block rename body) := by
  rw [expr]

theorem changed_expr (body : Block Expr) :
    body.changed (expr rename) = block rename body := by
  rw [Block.changed, expr_block]

/-- New names are those of the node itself and of its children. -/
theorem expr_eq (node : Expr) :
    expr rename node = (node.mapChildren fun _ => expr rename).renameOwn rename := by
  cases node with
  | block body =>
      obtain ⟨line, instrs⟩ := body
      simp only [expr_block, block, exprs_eq_mapIdx, Expr.mapChildren, Expr.renameOwn]
  | record line fields => simp only [expr, named_eq_mapIdx, Expr.mapChildren, Expr.renameOwn]
  | call | methodCall => simp only [expr, exprs_eq_mapIdx, Expr.mapChildren, Expr.renameOwn]
  | function | branch => simp only [expr, Expr.mapChildren, Expr.renameOwn, changed_expr]
  | _ => simp only [expr, Expr.mapChildren, Expr.renameOwn]

end Rename

namespace Script

/-- A program in which a parameter of the function at a place has another name. -/
def renameParameter (script : Script) (place : Place) (old new : String) : Script :=
  script.mapAt (Rename.expr (swapName old new)) place

/-- The parameter is renamed in the functions inside as well, and nothing else is. -/
example : (Script.mk ⟨none, [.function none (some "f") ["x", "y"] ⟨none, [
      .function none none ["x"] ⟨none, [.var none "x"]⟩, .field none (.var none "x") "x"]⟩,
      .var none "x"]⟩).renameParameter [0] "x" "z" =
    ⟨⟨none, [.function none (some "f") ["z", "y"] ⟨none, [
      .function none none ["z"] ⟨none, [.var none "z"]⟩, .field none (.var none "z") "x"]⟩,
      .var none "x"]⟩⟩ := by
  rfl

/-- At a place, a variable is assigned to that must be known. -/
def AssignsAt (script : Script) (name : String) (here : Place) : Prop :=
  ∃ line value, script.nodeAt? here = some (.assignment line name value false)

/-- At a place stands a function with a parameter that may have another name: neither of the two is
`this`, no function inside has the old name, and nothing inside has the new one. -/
structure MayRename (script : Script) (place : Place) (old new : String) : Prop where
  function : ∃ line name parameters body,
    script.nodeAt? place = some (.function line name parameters body) ∧
      old ∈ parameters ∧ new ∉ parameters
  oldNotThis : old ≠ "this"
  newNotThis : new ≠ "this"
  unshadowed : ∀ here line parameters body, 0 :: place <:+ here →
    script.nodeAt? here ≠ some (.function line (some old) parameters body)
  fresh : ∀ here node, 0 :: place <:+ here → script.nodeAt? here = some node → ¬ node.Mentions new

end Script

/-! ## The two programs -/

namespace ParameterNames

/-- Where code stands: outside of the function whose parameter has a new name, or in its body. -/
inductive Side where
  | outside
  | inside

variable {script : Script} {place here : Place} {old new : String}

section Definitions

variable (script place old new)

/-- The code of the two programs. Outside, all names stay. -/
inductive Code : Side → Expr → Expr → Prop
  | around {here : Place} {path : List Nat} {node : Expr} (stands : script.nodeAt? here = some node)
      (below : path.reverse ++ here = place) :
    Code .outside node (node.mapAt (Rename.expr (swapName old new)) path)
  | apart {here : Place} {node : Expr} (stands : script.nodeAt? here = some node)
      (notBelow : ¬ place <:+ here) (notAround : ¬ here <:+ place) : Code .outside node node
  | within {here : Place} {node : Expr} (stands : script.nodeAt? here = some node)
      (below : 0 :: place <:+ here) : Code .inside node (Rename.expr (swapName old new) node)

/-- How an unknown variable is reported: in the function by its new name. -/
inductive Unknown : String → String → Prop
  | outside {name : String}
      (assigned : name = old → ∃ here, ¬ place <:+ here ∧ script.AssignsAt old here) :
    Unknown name name
  | inside (assigned : ∃ here, 0 :: place <:+ here ∧ script.AssignsAt old here) : Unknown old new

end Definitions

/-- A program, and the program in which a parameter of the function at the place has a new name. -/
def pairing (may : script.MayRename place old new) : Pairing Side where
  outer := .outside
  known
    | .outside, _ => True
    | .inside, name => name ≠ new
  rename
    | .outside, name => name
    | .inside, name => swapName old new name
  known_outer _ := trivial
  rename_outer _ := rfl
  known_this side := by
    cases side with
    | outside => trivial
    | inside => exact may.newNotThis.symm
  rename_this side := by
    cases side with
    | outside => rfl
    | inside => exact swapName_of_ne may.oldNotThis.symm
  injective := by
    intro side first second known known' same
    cases side with
    | outside => exact same
    | inside => exact eq_of_swapName known known' same
  code := Code script place old new
  line := Eq
  line_refl := Eq.refl
  line_orElse := @Line.orElse_congr
  unknown := Unknown script place old new
  inserted _ := False

/-! ## Code corresponds part by part -/

/-- What stands beside the way to a place is apart from it. -/
theorem apart_of_ne {path : List Nat} {i j : Nat} (below : (i :: path).reverse ++ here = place)
    (other : j ≠ i) : ¬ place <:+ j :: here ∧ ¬ j :: here <:+ place := by
  have onWay : i :: here <:+ place := by
    rw [← below, List.reverse_cons, List.append_assoc]
    exact List.suffix_append _ _
  have ne_of_suffix : ¬ i :: here <:+ j :: here := fun suffix => by
    have same := suffix.eq_of_length (by simp)
    exact other (List.cons.inj same).1.symm
  constructor
  · intro beyond
    exact ne_of_suffix (onWay.trans beyond)
  · intro onWay'
    exact ne_of_suffix (List.suffix_of_suffix_length_le onWay onWay' (by simp))

/-- A node on the way to a place is not below it. -/
theorem not_suffix_of_below {path : List Nat} {i : Nat}
    (below : (i :: path).reverse ++ here = place) : ¬ place <:+ here := by
  intro suffix
  have shorter : place.length ≤ here.length := suffix.length_le
  have longer : place.length = (path.length + 1) + here.length := by
    rw [← below, List.length_append, List.length_reverse, List.length_cons]
  omega

/-- Children of nodes apart from a place are apart from it. -/
theorem apart_child (notBelow : ¬ place <:+ here) (notAround : ¬ here <:+ place) (i : Nat) :
    ¬ place <:+ i :: here ∧ ¬ i :: here <:+ place := by
  constructor
  · intro suffix
    rcases List.suffix_cons_iff.mp suffix with rfl | further
    · exact notAround (List.suffix_cons _ _)
    · exact notBelow further
  · intro suffix
    exact notAround ((List.suffix_cons _ _).trans suffix)

/-- An assignment in the function reports its variable by the new name. -/
theorem unknown_swapName {name : String} (below : 0 :: place <:+ here)
    (assigns : script.AssignsAt name here) :
    Unknown script place old new name (swapName old new name) := by
  by_cases isOld : name = old
  · subst isOld
    rw [swapName_self]
    exact .inside ⟨here, below, assigns⟩
  · rw [swapName_of_ne isOld]
    exact .outside fun same => absurd same isOld

variable {node : Expr}

/-- Outside of the function a node keeps its names, if its children correspond. -/
theorem nodes_outside (may : script.MayRename place old new) {change : Nat → Expr → Expr}
    (stands : script.nodeAt? here = some node) (notBelow : ¬ place <:+ here)
    (blocks : ∀ i body, ∃ body', change i (.block body) = .block body')
    (children : ∀ i child, node.child? i = some child →
      Code script place old new .outside child (change i child)) :
    (pairing may).Nodes .outside node (node.mapChildren change) := by
  have nodes : (pairing may).Nodes .outside node ((node.mapChildren change).renameOwn id) := by
    refine Pairing.nodes_mapChildren Side.outside _ blocks children (fun _ _ => trivial)
      (fun line name value same => ?_) fun _ _ _ _ _ => rfl
    refine .outside fun isOld => ⟨here, notBelow, line, value, ?_⟩
    rw [stands, same, isOld]
  rwa [Expr.renameOwn_id] at nodes

/-- The function itself: its parameters and its body are those of the other side. -/
theorem nodes_function (may : script.MayRename place old new)
    (stands : script.nodeAt? place = some node) :
    (pairing may).Nodes .outside node (Rename.expr (swapName old new) node) := by
  obtain ⟨line, name, parameters, body, there, parameter, notParameter⟩ := may.function
  cases there.symm.trans stands
  have known : ∀ name ∈ parameters, name ≠ new := fun name listed same =>
    notParameter (same ▸ listed)
  have free (name : String) (absent : name ∉ parameters) : name = swapName old new name := by
    refine (swapName_of_ne ?_).symm
    rintro rfl
    exact absent parameter
  have within : Code script place old new .inside (.block body) _ :=
    .within (Script.nodeAt?_cons stands rfl) (List.suffix_refl _)
  rw [Rename.expr_block] at within
  rw [Rename.expr]
  exact .function (fun _ _ => ⟨trivial, rfl⟩)
    ⟨rfl, rfl, .inside, ⟨rfl, known, fun name _ _ absent => ⟨trivial, free name absent⟩⟩, within⟩

theorem nodes_within (may : script.MayRename place old new)
    (stands : script.nodeAt? here = some node) (below : 0 :: place <:+ here) :
    (pairing may).Nodes .inside node (Rename.expr (swapName old new) node) := by
  rw [Rename.expr_eq]
  refine Pairing.nodes_mapChildren Side.inside _ (fun _ body => ⟨_, Rename.expr_block _ body⟩)
    (fun i child found => ?_) (fun name mentions => ?_) (fun line name value same => ?_)
    fun line name parameters body same => ?_
  · exact .within (Script.nodeAt?_cons stands found) (below.trans (List.suffix_cons _ _))
  · rintro rfl
    exact may.fresh here node below stands mentions
  · exact unknown_swapName below ⟨line, value, stands.trans (same ▸ rfl)⟩
  · refine swapName_of_ne ?_
    rintro rfl
    exact may.unshadowed here line parameters body below (stands.trans (same ▸ rfl))

/-- The code of a program corresponds part by part to the code with a new name for a parameter. -/
theorem lawful (may : script.MayRename place old new) : (pairing may).Lawful where
  unseen := False.elim
  nodes := by
    intro side node node' codes
    cases codes with
    | within stands below => exact nodes_within may stands below
    | apart stands notBelow notAround =>
        have nodes := nodes_outside may stands notBelow (fun _ body => ⟨body, rfl⟩)
          fun i child found => by
            obtain ⟨notBelow, notAround⟩ := apart_child notBelow notAround i
            exact .apart (Script.nodeAt?_cons stands found) notBelow notAround
        rwa [Expr.mapChildren_id] at nodes
    | @around here path _ stands below =>
        cases path with
        | nil =>
            obtain rfl : here = place := below
            exact nodes_function may stands
        | cons i path =>
            refine nodes_outside may stands (not_suffix_of_below below) (fun j body => ?_)
              fun j child found => ?_
            · split
              · exact Expr.mapAt_block (fun body => ⟨_, Rename.expr_block _ body⟩) path body
              · exact ⟨body, rfl⟩
            · by_cases onWay : j = i
              · subst onWay
                rw [if_pos rfl]
                refine .around (Script.nodeAt?_cons stands found) ?_
                rw [← below, List.reverse_cons, List.append_assoc]
                rfl
              · rw [if_neg onWay]
                obtain ⟨notBelow, notAround⟩ := apart_of_ne below onWay
                exact .apart (Script.nodeAt?_cons stands found) notBelow notAround

/-! ## Reports -/

/-- Nothing is inserted and nothing is nested. -/
theorem not_costlier (may : script.MayRename place old new) : ¬ (pairing may).Costlier
  | .inr ⟨_, inserted⟩ => inserted

/-- Records of the two logs are the same. -/
theorem eq_of_records (may : script.MayRename place old new) {records records' : List LogRecord}
    (all : List.Forall₂ (pairing may).Records records records') : records' = records := by
  induction all with
  | nil => rfl
  | @cons record record' _ _ first _ ih =>
      have same : record' = record := by
        cases first with
        | started count => rw [count.resolve_right (not_costlier may)]
        | finished => rfl
        | printing => rfl
        | calling lines => rw [show _ = _ from lines]
      rw [same, ih]

end ParameterNames

/-- The reports of two programs that differ in the name of a parameter: the same lines and records,
and the same root scope up to the identity of objects. They end in the same way, but an unknown
variable is reported by its new name when an assignment in the function reports it. -/
structure Script.SameButName (script : Script) (place : Place) (old new : String)
    (report report' : Report) : Prop where
  sink : report'.state.sink = report.state.sink
  log : report'.state.log = report.state.log
  heap : ∃ same, report.state.heap.Mirrors same report'.state.heap
  ending :
    (report'.ending = report.ending ∧
      ∀ line, report.ending = .error (.failure ⟨.unknownVariable old, line⟩) →
        ∃ here, ¬ place <:+ here ∧ script.AssignsAt old here) ∨
    ∃ line, report.ending = .error (.failure ⟨.unknownVariable old, line⟩) ∧
      report'.ending = .error (.failure ⟨.unknownVariable new, line⟩) ∧
      ∃ here, 0 :: place <:+ here ∧ script.AssignsAt old here

namespace ParameterNames

variable {script : Script} {place : Place} {old new : String}

theorem sameButName (may : script.MayRename place old new) {report report' : Report}
    (reports : (pairing may).Reports report report') :
    script.SameButName place old new report report' := by
  obtain ⟨⟨matching, heaps, sink, strict, records⟩, endings⟩ := reports
  refine ⟨sink, ?_, ⟨_, heaps.mirrors⟩, ?_⟩
  · have same := Array.toList_inj.mp (eq_of_records may records)
    generalize report'.state.log = log' at strict same ⊢
    generalize report.state.log = log at strict same ⊢
    cases log
    cases log'
    cases strict
    cases same
    rfl
  · generalize report.ending = ending at endings ⊢
    generalize report'.ending = ending' at endings ⊢
    cases endings with
    | ok => exact .inl ⟨rfl, fun _ => nofun⟩
    | error faults =>
        cases faults with
        | failure causes lines =>
            obtain rfl : _ = _ := lines
            cases causes with
            | same other =>
                refine .inl ⟨rfl, fun line same => ?_⟩
                cases same
                exact absurd rfl (other old)
            | unknownVariable unknown =>
                cases unknown with
                | outside assigned =>
                    refine .inl ⟨rfl, fun line same => ?_⟩
                    cases same
                    exact assigned rfl
                | inside assigned => exact .inr ⟨_, rfl, rfl, assigned⟩
        | digitLimit | sinkClosed | tooDeep => exact .inl ⟨rfl, fun _ => nofun⟩

end ParameterNames

namespace Script

open ParameterNames

/-- The name of a parameter is not observed. A program in which a parameter of some function has a
new name runs as before under every limit: both runs are refused, or they print the same lines,
leave the same root scope and end in the same way. Only the message of an assignment in the function
that finds the parameter without a value shows the name. -/
theorem parameter_names (script : Script) (place : Place) {old new : String}
    (may : script.MayRename place old new) (settings : Settings) (sink : Sink) (log : Log) :
    RunsAlike (script.SameButName place old new) (script.run (.sink sink) settings log)
      ((script.renameParameter place old new).run (.sink sink) settings log) := by
  have codes : Code script place old new .outside (.block script.body)
      (.block (script.renameParameter place old new).body) := by
    have around : Code script place old new .outside (.block script.body) _ :=
      .around rfl (List.append_nil _ |>.trans (List.reverse_reverse place))
    obtain ⟨body', same⟩ := Expr.mapAt_block
      (fun body => ⟨_, Rename.expr_block (swapName old new) body⟩) place.reverse script.body
    rw [renameParameter, mapAt, Block.changed, same]
    rwa [same] at around
  exact Pairing.runsAlike settings sink log (lawful may) codes
    (fun _ inserted => inserted.elim) fun reports => sameButName may reports

/-- The body of a function that assigns to its parameter and gives a function with a parameter of
the same name. -/
def keeping : Block Expr :=
  ⟨none, [.assignment (some 2) "x" (.var none "x") false,
    .returns none (.function none none ["x"] ⟨none, [.var none "x"]⟩)]⟩

/-- Calls the function with a variable of the new name, which is unknown outside. -/
def keeper : Script :=
  ⟨⟨none, [
    .function none (some "f") ["x"] keeping,
    .call (some 4) (.var none "f") [.var none "y"]]⟩⟩

/-- The nodes in the body. -/
def keptNodes : List Expr :=
  [.block keeping, .assignment (some 2) "x" (.var none "x") false, .var none "x",
    .returns none (.function none none ["x"] ⟨none, [.var none "x"]⟩),
    .function none none ["x"] ⟨none, [.var none "x"]⟩, .block ⟨none, [.var none "x"]⟩]

theorem mem_keptNodes : ∀ here node, [0, 0] <:+ here → keeper.nodeAt? here = some node →
    node ∈ keptNodes := by
  have top : keeper.nodeAt? [0, 0] = some (.block keeping) := rfl
  refine holds_below top (by simp [keptNodes]) fun node i child listed found => ?_
  simp only [keptNodes, List.mem_cons, List.not_mem_nil, or_false] at listed
  rcases listed with rfl | rfl | rfl | rfl | rfl | rfl
  · rcases i with _ | _ | i <;> simp [Expr.child?, keeping] at found <;> simp [keptNodes, ← found]
  all_goals
    rcases i with _ | i <;> simp [Expr.child?] at found <;> simp [keptNodes, ← found]

theorem mayRename_keeper : keeper.MayRename [0] "x" "y" where
  function := ⟨none, some "f", ["x"], keeping, rfl, by decide, by decide⟩
  oldNotThis := by decide
  newNotThis := by decide
  unshadowed := by
    intro here line parameters body below stands
    have listed := mem_keptNodes here _ below stands
    simp [keptNodes] at listed
  fresh := by
    intro here node below stands mentions
    have listed := mem_keptNodes here _ below stands
    simp only [keptNodes, List.mem_cons, List.not_mem_nil, or_false] at listed
    rcases listed with rfl | rfl | rfl | rfl | rfl | rfl <;> simp [Expr.Mentions] at mentions

theorem parameter_names_keeper : keeper.MayRename [0] "x" "y" ∧
    RunsAlike (keeper.SameButName [0] "x" "y") (keeper.run (.sink .empty) .standard {})
      ((keeper.renameParameter [0] "x" "y").run (.sink .empty) .standard {}) :=
  ⟨mayRename_keeper, parameter_names keeper [0] mayRename_keeper .standard .empty {}⟩

end Script

end ScriptTree
